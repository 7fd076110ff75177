import XxAgent.Persistence.LegacyMigration
import XxAgent.Session.SurfacePartition

/-!
# Rewritten results of an old log

Old logs replaced the content of a tool result by an event of the same retired shape. An upgraded
result has an identified message, and the rule of the surface demands that a rewrite keeps it: the
id of a replacement is the id of what it replaces, which may be a replacement itself. The ids are
found by position, so each is the one its event has in the upgraded log.
-/

namespace XxAgent

open Ecma

/-! ## Equal objects -/

/-- Objects with the same properties are equal. -/
theorem isDeepEqualJson_obj {fs gs : Fields} (hf : (keys fs).Nodup) (hg : (keys gs).Nodup)
    (h : ∀ k, SameJson (fieldOf k fs) (fieldOf k gs)) :
    isDeepEqualJson (.obj fs) (.obj gs) = true := by
  have hmem (k : JsString) : k ∈ keys fs ↔ k ∈ keys gs := by
    rw [← not_iff_not, ← fieldOf_eq_none_iff, ← fieldOf_eq_none_iff]
    have hk := h k
    generalize fieldOf k fs = x at hk
    generalize fieldOf k gs = y at hk
    cases hk with
    | none => simp
    | some => simp
  have hperm : (keys fs).Perm (keys gs) := (List.perm_ext_iff_of_nodup hf hg).mpr hmem
  have hlength : fs.length = gs.length := by
    simpa [keys] using hperm.length_eq
  rw [isDeepEqualJson_objects, Bool.and_eq_true, decide_eq_true_iff, isDeepEqualMembers_iff]
  refine ⟨hlength, fun p hp ↦ ?_⟩
  have hsame := h p.1
  rw [fieldOf_of_mem hf hp] at hsame
  cases hgs : fieldOf p.1 gs with
  | none => rw [hgs] at hsame; cases hsame
  | some y =>
    rw [hgs] at hsame
    cases hsame with
    | some heq => exact ⟨y, rfl, heq⟩

theorem fieldOf_omitFields (names : List String) (k : JsString) (fs : Fields) :
    fieldOf k (omitFields names fs) = if k ∈ names.map js then none else fieldOf k fs := by
  induction fs with
  | nil => simp [omitFields]
  | cons p fs ih =>
    rw [omitFields] at ih ⊢
    rw [List.filter_cons, fieldOf_cons]
    by_cases hp : p.1 ∈ names.map js
    · rw [if_neg (by simpa using hp), ih]
      by_cases hk : p.1 = k
      · rw [if_pos (hk ▸ hp), if_pos (hk ▸ hp)]
      · rw [if_neg hk]
    · rw [if_pos (by simpa using hp), fieldOf_cons, ih]
      by_cases hk : p.1 = k
      · rw [if_pos hk, if_pos hk, if_neg (hk ▸ hp)]
      · rw [if_neg hk, if_neg hk]

theorem nodup_omitFields (names : List String) {fs : Fields} (h : (keys fs).Nodup) :
    (keys (omitFields names fs)).Nodup :=
  h.sublist ((List.filter_sublist).map Prod.fst)

/-! ## Results of the retired shape -/

/-- A tool result from before messages had an identity. -/
structure IsLegacyResult (event : Json) (data : Fields) : Prop where
  type : hasType "tool/result" event = true
  record : asRecord (event.get? "data") = some data
  message : hasField "message" data = false
  callId : hasField "callId" data = true
  content : hasField "content" data = true
  isError : hasField "isError" data = true

/-- A retired tool result has the payload of another, but for the content. -/
structure ChangesContentAlone (original event : Json) : Prop where
  exists_payloads : ∃ d e, hasType "tool/result" original = true ∧
    asRecord (original.get? "data") = some d ∧ IsLegacyResult event e ∧
    isDeepEqualJson (.obj (omitFields ["content"] d)) (.obj (omitFields ["content"] e)) = true

/-- The only tool results that replace others are retired ones that change the content of one. -/
def LegacyRewritesAlone (events : List Json) : Prop :=
  ∀ (k : ℕ) (event : Json) (start stop : ℕ), events[k]? = some event →
    hasType "tool/result" event = true → surfaceOpOf event = .ok (some (.replace start stop)) →
      stop = start ∧ ∃ original, events[start]? = some original ∧ ChangesContentAlone original event

/-- The message of an upgraded result. -/
def upgradedToolMessage (messageId : JsString) (callId content isError : Json) : Json :=
  .obj [prop "id" (.str messageId), prop "role" (text "user"),
    prop "content" (.arr [.obj [prop "type" (text "tool-result"), prop "toolCallId" callId,
      prop "content" content, prop "isError" isError]]),
    prop "source" (.obj [prop "kind" (text "tool"), prop "callId" callId])]

theorem legacyToolMessage_eq {data : Fields} {callId content isError : Json} (m : JsString)
    (hcallId : fieldOf (js "callId") data = some callId)
    (hcontent : fieldOf (js "content") data = some content)
    (hisError : fieldOf (js "isError") data = some isError) :
    legacyToolMessage data (some m) = upgradedToolMessage m callId content isError := by
  rw [legacyToolMessage, hcallId, hcontent, hisError]
  rfl

/-- The payload of an upgraded result without its content. -/
theorem withoutContent_eq (rest : Fields) (m : JsString) (callId content isError : Json) :
    withoutContent (some (.obj (setField rest (js "message")
      (upgradedToolMessage m callId content isError)))) =
    .ok (.obj (setField (setField rest (js "message")
        (upgradedToolMessage m callId content isError))
      (js "message") (upgradedToolMessage m callId .null isError))) := by
  rw [withoutContent]
  simp only [Value.get_some, Json.get?_obj, fieldOf_setField_self]
  rfl

/-- Messages of results of one call are equal, but for the content. -/
theorem isDeepEqualJson_upgraded (m : JsString) {callId callId' isError isError' : Json}
    (hcallId : isDeepEqualJson callId callId' = true)
    (hisError : isDeepEqualJson isError isError' = true) :
    isDeepEqualJson (upgradedToolMessage m callId .null isError)
      (upgradedToolMessage m callId' .null isError') = true := by
  simp [upgradedToolMessage, isDeepEqualJson, isDeepEqualMembers, isDeepEqualElements, js_inj, text,
    hcallId, hisError]

/-- The payload of an upgraded result. -/
def upgradedPayload (data : Fields) (messageId : JsString) : Fields :=
  setField (omitFields ["callId", "content", "isError"] data) (js "message")
    (legacyToolMessage data (some messageId))

/-- Payloads that differ in their content alone still do so when they are upgraded with the same
message id. -/
theorem withoutContent_upgraded {original event : Json} {d e : Fields} (m : JsString)
    (hd : IsLegacyResult original d) (he : IsLegacyResult event e) (hdnd : (keys d).Nodup)
    (hend : (keys e).Nodup)
    (hrest : ∀ k, k ≠ js "content" → SameJson (fieldOf k d) (fieldOf k e)) :
    ∃ x y, withoutContent (some (.obj (upgradedPayload d m))) = .ok x ∧
      withoutContent (some (.obj (upgradedPayload e m))) = .ok y ∧ isDeepEqualJson x y = true := by
  obtain ⟨dCall, hdCall⟩ := Option.isSome_iff_exists.mp hd.callId
  obtain ⟨dContent, hdContent⟩ := Option.isSome_iff_exists.mp hd.content
  obtain ⟨dError, hdError⟩ := Option.isSome_iff_exists.mp hd.isError
  obtain ⟨eCall, heCall⟩ := Option.isSome_iff_exists.mp he.callId
  obtain ⟨eContent, heContent⟩ := Option.isSome_iff_exists.mp he.content
  obtain ⟨eError, heError⟩ := Option.isSome_iff_exists.mp he.isError
  rw [upgradedPayload, upgradedPayload, legacyToolMessage_eq m hdCall hdContent hdError,
    legacyToolMessage_eq m heCall heContent heError]
  refine ⟨_, _, withoutContent_eq _ m dCall dContent dError,
    withoutContent_eq _ m eCall eContent eError, ?_⟩
  refine isDeepEqualJson_obj (nodup_setField _ _ (nodup_setField _ _ (nodup_omitFields _ hdnd)))
    (nodup_setField _ _ (nodup_setField _ _ (nodup_omitFields _ hend))) fun k ↦ ?_
  by_cases hk : js "message" = k
  · subst hk
    rw [fieldOf_setField_self, fieldOf_setField_self]
    have hcall := hrest (js "callId") (by simp [js_inj])
    have herror := hrest (js "isError") (by simp [js_inj])
    rw [hdCall, heCall] at hcall
    rw [hdError, heError] at herror
    cases hcall with
    | some hcall =>
      cases herror with
      | some herror => exact .some (isDeepEqualJson_upgraded m hcall herror)
  · rw [fieldOf_setField_of_ne hk, fieldOf_setField_of_ne hk, fieldOf_setField_of_ne hk,
      fieldOf_setField_of_ne hk, fieldOf_omitFields, fieldOf_omitFields]
    split_ifs with hmem
    · exact .none
    · refine hrest k fun hc ↦ hmem ?_
      rw [hc]
      exact List.mem_map_of_mem (by simp)

/-! ## Upgraded results -/

/-- What becomes of a retired tool result. -/
structure UpgradedResult (id : JsString) (ids : MessageIds) (event snapshot : Json) (data : Fields)
    (messageId : JsString) : Prop where
  payload : snapshot.get? "data" = some (.obj (upgradedPayload data messageId))
  eventMessageId : eventMessageId snapshot = some messageId
  inherited : ∀ start, replacementStart event = some start → ids.find start = some messageId

/-- A tool result meets the last upgrade only. -/
theorem snapshot_of_toolResult {id : JsString} {ids : MessageIds} {event snapshot : Json}
    (h : snapshotStoredEvent id ids event = .ok snapshot)
    (htype : hasType "tool/result" event = true) :
    snapshot = migrateLegacyMessageEvent event id ids ∧
      assertMessageEventShape snapshot = .ok () := by
  obtain ⟨started, ended, steered, h1, h2, h3, hsnapshot, hshape⟩ := snapshotStoredEvent_eq_ok h
  obtain rfl := (migrateLegacyTurnStartEvent_spec h1).eq_of_type htype (by simp)
  obtain rfl := (migrateLegacyTurnEndEvent_spec h2).eq_of_type htype (by simp)
  rcases migrateLegacySteeringEvent_type h3 with ⟨-, rfl⟩ | ⟨hsteering, -⟩
  · exact ⟨hsnapshot, hshape⟩
  · exact nomatch hsteering.symm.trans (hasType_eq_false htype (by simp))

theorem IsLegacyResult.upgrade {id : JsString} {ids : MessageIds} {event snapshot : Json}
    {data : Fields} (hlegacy : IsLegacyResult event data)
    (h : snapshotStoredEvent id ids event = .ok snapshot) :
    ∃ m, UpgradedResult id ids event snapshot data m := by
  obtain ⟨hsnapshot, hshape⟩ := snapshot_of_toolResult h hlegacy.type
  have huser : hasType "user/message" event = false := hasType_eq_false hlegacy.type (by simp)
  have hassistant : hasType "assistant/message" event = false :=
    hasType_eq_false hlegacy.type (by simp)
  rw [migrateLegacyMessageEvent] at hsnapshot
  simp only [hlegacy.record, huser, hassistant, hlegacy.type, hlegacy.message, hlegacy.callId,
    hlegacy.content, hlegacy.isError, Bool.false_eq_true, Bool.not_true, Bool.or_self, ↓reduceIte]
    at hsnapshot
  obtain ⟨messageId, hsnapshot, hinherited⟩ : ∃ messageId : Option JsString,
      snapshot = withFields event ([] ++ [prop "data" (.obj (setFields
        (omitFields ["callId", "content", "isError"] data)
        [prop "message" (legacyToolMessage data messageId)]))]) ∧
      ∀ start, replacementStart event = some start → messageId = ids.find start := by
    cases hstart : replacementStart event with
    | none =>
      simp only [hstart] at hsnapshot
      exact ⟨_, hsnapshot, fun _ h ↦ absurd h (by simp)⟩
    | some start =>
      simp only [hstart] at hsnapshot
      exact ⟨_, hsnapshot, fun _ h ↦ Option.some.inj h ▸ rfl⟩
  have hdata : snapshot.get? "data" = some (.obj (setField
      (omitFields ["callId", "content", "isError"] data) (js "message")
      (legacyToolMessage data messageId))) := by
    rw [hsnapshot]
    exact get?_withFields_self hlegacy.record _
  have htype (type : String) : hasType type snapshot = hasType type event := by
    rw [hsnapshot]
    exact hasType_withFields rfl type event
  have hmessage : messageOf snapshot = some (legacyToolMessage data messageId) := by
    have hresult := of_decide_eq_true ((htype "tool/result").trans hlegacy.type)
    rw [messageOf, hresult, if_neg (by simp), hdata]
    exact fieldOf_setField_self _ _ _
  have hmessageId : Value.get "id" (some (legacyToolMessage data messageId)) =
      messageId.map Json.str :=
    fieldOf_definedFields (by simp) List.mem_cons_self
  have hresult := of_decide_eq_true ((htype "tool/result").trans hlegacy.type)
  have hidentified := (identified_of_shape hshape (by simp [isMessageType, hresult])).2
  rw [hmessage, hmessageId] at hidentified
  cases messageId with
  | none => simp [isNonemptyString] at hidentified
  | some m =>
    refine ⟨m, hdata, ?_, fun start hstart ↦ (hinherited start hstart).symm⟩
    have hnested : fieldOf (js "message") (setField
        (omitFields ["callId", "content", "isError"] data) (js "message")
        (legacyToolMessage data (some m))) = some (legacyToolMessage data (some m)) :=
      fieldOf_setField_self _ _ _
    rw [eventMessageId, hdata, htype, huser]
    simp only [asRecord, Bool.false_eq_true, ↓reduceIte, Option.bind_some, hnested]
    rw [legacyToolMessage] at hmessageId ⊢
    rw [Value.get_some, Json.get?_obj] at hmessageId
    simp only [Option.bind_some, hmessageId]
    rfl

/-- What is replaced by a retired result that changes its content alone is a retired result. -/
theorem ChangesContentAlone.legacy {id : JsString} {ids : MessageIds}
    {original event snapshot : Json} {d e : Fields} (hwf : original.WF)
    (htype : hasType "tool/result" original = true)
    (hrecord : asRecord (original.get? "data") = some d) (he : IsLegacyResult event e)
    (hequal : isDeepEqualJson (.obj (omitFields ["content"] d)) (.obj (omitFields ["content"] e)) =
      true) (h : snapshotStoredEvent id ids original = .ok snapshot) :
    IsLegacyResult original d := by
  have hdnd : (keys (omitFields ["content"] d)).Nodup :=
    nodup_omitFields _ (hwf.of_get? (asRecord_eq_some hrecord)).nodup
  have hsame (k : String) (hk : k ≠ "content") : hasField k d = hasField k e := by
    have hfield := sameJson_fieldOf hdnd hequal (js k)
    rw [fieldOf_omitFields, fieldOf_omitFields, if_neg (by simpa [js_inj] using hk),
      if_neg (by simpa [js_inj] using hk)] at hfield
    rw [hasField, hasField]
    generalize fieldOf (js k) d = x at hfield
    generalize fieldOf (js k) e = y at hfield
    cases hfield with
    | none => rfl
    | some => rfl
  have hmessage : hasField "message" d = false := (hsame _ (by simp)).trans he.message
  refine ⟨htype, hrecord, hmessage, (hsame _ (by simp)).trans he.callId, ?_,
    (hsame _ (by simp)).trans he.isError⟩
  -- Without content it is no retired result, and it is no current one either.
  by_contra hcontent
  rw [Bool.not_eq_true] at hcontent
  obtain ⟨hsnapshot, hshape⟩ := snapshot_of_toolResult h htype
  have huser : hasType "user/message" original = false := hasType_eq_false htype (by simp)
  have hassistant : hasType "assistant/message" original = false :=
    hasType_eq_false htype (by simp)
  rw [migrateLegacyMessageEvent] at hsnapshot
  simp only [hrecord, huser, hassistant, htype, hcontent, Bool.false_eq_true, ↓reduceIte,
    Bool.not_false, Bool.or_true, Bool.true_or] at hsnapshot
  have hresult := of_decide_eq_true htype
  rw [hsnapshot] at hshape
  have hidentified := (identified_of_shape hshape (by simp [isMessageType, hresult])).1
  rw [messageOf, hresult, if_neg (by simp), asRecord_eq_some hrecord] at hidentified
  have hfield := hasField_of_isRecord (k := "message") hidentified
  rw [hmessage] at hfield
  cases hfield

/-! ## The ids of a log -/

/-- Every event has its position for its seq. -/
def InPlace (log : List Json) : Prop :=
  ∀ (i : ℕ) (event : Json), log[i]? = some event → event.get? "seq" = some (integer i)

/-- The id that is found at a position is that of the event there. -/
theorem find_recordAll {log : List Json} (hplace : InPlace log) {i : ℕ} {event : Json}
    {m : JsString} (hi : log[i]? = some event) (hm : eventMessageId event = some m) :
    (MessageIds.recordAll [] log).find (.int i) = some m := by
  induction log using List.reverseRecOn with
  | nil => cases hi
  | append_singleton log last ih =>
    have hlast := hplace log.length last (by simp)
    rw [MessageIds.recordAll, List.foldl_append, List.foldl_cons, List.foldl_nil]
    rw [MessageIds.recordAll] at ih
    rw [MessageIds.record, hlast]
    by_cases hlength : i = log.length
    · obtain rfl : last = event := by
        rw [hlength, List.getElem?_concat_length] at hi
        exact Option.some.inj hi
      simp [integer, hm, MessageIds.find, hlength]
    · have hbelow : i < log.length := by
        have := (List.getElem?_eq_some_iff.mp hi).1
        rw [List.length_append, List.length_singleton] at this
        omega
      rw [List.getElem?_append_left hbelow] at hi
      have hfound := ih (fun j e he ↦ hplace j e (by
        rw [List.getElem?_append_left (List.getElem?_eq_some_iff.mp he).1]
        exact he)) hi
      cases eventMessageId last with
      | none => exact hfound
      | some m' =>
        have hne : ¬ (Number.int (i : ℤ) == Number.int (log.length : ℤ)) = true := by
          simpa using hlength
        simp only [integer, MessageIds.find, List.lookup_cons]
        simp only [hne]
        exact hfound

theorem inPlace_of_surfaceAfter {log : List Json} {state : SurfaceFoldState}
    (h : surfaceAfter log = .ok state) : InPlace log := by
  refine Replay.replay_induction (fun log _ ↦ InPlace log) (fun _ _ h ↦ nomatch h)
    (fun state log event plan _ hlog hplan i event' hi ↦ ?_) h
  by_cases hlength : i = log.length
  · rw [hlength, List.getElem?_concat_length] at hi
    obtain rfl := Option.some.inj hi
    rw [planNext, planSurfaceEvent] at hplan
    simp only at hplan
    split_ifs at hplan with hseq
    rw [not_not.mp hseq, hlength]
  · have hbelow : i < log.length := by
      have := (List.getElem?_eq_some_iff.mp hi).1
      rw [List.length_append, List.length_singleton] at this
      omega
    rw [List.getElem?_append_left hbelow] at hi
    exact hlog i event' hi

/-! ## The rule of the surface -/

/-- The faults of the rule that a replaced tool result keeps all but its content. -/
def SurfaceFault.isRewrite : SurfaceFault → Bool
  | rewritesRange | rewritesOther | rewritesMore | typeError => true
  | _ => false

theorem surfaceOpOf_not_rewrite {event : Json} {fault : SurfaceFault}
    (h : surfaceOpOf event = .error fault) : fault.isRewrite = false := by
  rw [surfaceOpOf] at h
  split_ifs at h
  all_goals
    cases h
    rfl

theorem citedSources_not_rewrite {event : Json} {fault : SurfaceFault}
    (h : citedSources event = .error fault) : fault.isRewrite = false := by
  rw [citedSources.eq_def] at h
  dsimp only at h
  split at h
  case h_1 => cases h
  case h_2 raw _ =>
    split_ifs at h
    · cases h
      rfl
    · cases h
      rfl
    · split at h
      · cases h
        rfl
      · cases h
    · cases h
      rfl
  case h_3 =>
    cases h
    rfl

theorem assertProvenance_not_rewrite {event : Json} {shadowed : List ℕ} {fault : SurfaceFault}
    (h : assertProvenance event shadowed = .error fault) : fault.isRewrite = false := by
  rw [assertProvenance] at h
  cases hcited : citedSources event with
  | error cited =>
    simp only [hcited] at h
    obtain rfl : cited = fault := Except.error.inj h
    exact citedSources_not_rewrite hcited
  | ok sources =>
    simp only [hcited] at h
    split_ifs at h
    cases h
    rfl

theorem replacementRange_not_rewrite {state : SurfaceFoldState} {start stop : ℕ}
    {fault : SurfaceFault} (h : replacementRange state start stop = .error fault) :
    fault.isRewrite = false := by
  rw [replacementRange.eq_def] at h
  split at h
  · cases h
    rfl
  · cases h
    rfl
  · split_ifs at h
    cases h
    rfl

/-- Only a replacement is refused by the rule. -/
theorem rewrite_of_planNext {state : SurfaceFoldState} {log : List Json} {event : Json}
    {fault : SurfaceFault} (h : planNext state log event = .error fault)
    (hrewrite : fault.isRewrite = true) : ∃ start stop i j shadowed,
      surfaceOpOf event = .ok (some (.replace start stop)) ∧
      replacementRange state start stop = .ok (i, j, shadowed) ∧
      assertToolResultRewrite event shadowed log 0 = .error fault := by
  have hnot : ¬ fault.isRewrite = false := by simp [hrewrite]
  rw [planNext, planSurfaceEvent] at h
  simp only at h
  split_ifs at h with hseq
  · cases h
    cases hrewrite
  · cases hop : surfaceOpOf event with
    | error other =>
      simp only [hop] at h
      cases h
      exact absurd (surfaceOpOf_not_rewrite hop) hnot
    | ok op =>
      rcases op with _ | _ | ⟨start, stop⟩
      · simp only [hop] at h
        cases h
      · simp only [hop] at h
        cases hprovenance : assertProvenance event [] with
        | error other =>
          rw [hprovenance] at h
          cases h
          exact absurd (assertProvenance_not_rewrite hprovenance) hnot
        | ok u =>
          rw [hprovenance] at h
          cases h
      · simp only [hop] at h
        cases hrange : replacementRange state start stop with
        | error other =>
          rw [hrange] at h
          cases h
          exact absurd (replacementRange_not_rewrite hrange) hnot
        | ok range =>
          obtain ⟨i, j, shadowed⟩ := range
          refine ⟨start, stop, i, j, shadowed, rfl, hrange, ?_⟩
          rw [hrange] at h
          simp only [Except.bind] at h
          cases hprovenance : assertProvenance event shadowed with
          | error other =>
            simp only [hprovenance] at h
            cases h
            exact absurd (assertProvenance_not_rewrite hprovenance) hnot
          | ok u =>
            simp only [hprovenance] at h
            cases hresult : assertToolResultRewrite event shadowed log 0 with
            | error other =>
              rw [hresult] at h
              cases h
              rfl
            | ok u' =>
              rw [hresult] at h
              cases h

/-- The target of a replacement, as the upgrade reads it. -/
theorem replacementStart_of_surfaceOp {event : Json} {start stop : ℕ}
    (h : surfaceOpOf event = .ok (some (.replace start stop))) :
    replacementStart event = some (.int start) := by
  rw [surfaceOpOf] at h
  split_ifs at h with _ _ _ _ _ _ hreplace
  · cases h
  · cases h
  · rw [Bool.not_eq_false, isReplaceOp] at hreplace
    simp only [Bool.and_eq_true, decide_eq_true_iff] at hreplace
    obtain ⟨⟨⟨hkeys, hop⟩, hstart⟩, -⟩ := hreplace
    obtain ⟨fs, hfs⟩ := exists_obj_of_hasExactKeys hkeys
    rw [isEventSeq, Bool.and_eq_true, decide_eq_true_iff] at hstart
    obtain ⟨hsafe, hnonneg⟩ := hstart
    obtain ⟨n, hn, -⟩ := Value.isSafeInteger_iff.mp hsafe
    have hseq : start = toSeq (Value.get "start" (event.get? "surfaceOp")) := by
      cases h
      rfl
    rw [hn, toSeq, Value.toInt_int] at hseq
    rw [hn, Value.toInt_int] at hnonneg
    rw [hfs] at hop hn
    rw [replacementStart, hfs]
    have hop' : fieldOf (js "op") fs = some (text "replace") := hop
    have hn' : fieldOf (js "start") fs = some (.num (.int n)) := hn
    simp only [asRecord, hop', ↓reduceIte, hn']
    rw [hseq, Int.toNat_of_nonneg hnonneg]

/-- A range of one node. -/
theorem shadowed_singleton {state : SurfaceFoldState} {start i j : ℕ} {shadowed : List ℕ}
    (h : replacementRange state start start = .ok (i, j, shadowed)) :
    shadowed = [start] ∧ start ∈ state.nodes := by
  rw [replacementRange.eq_def] at h
  split at h
  case h_1 => cases h
  case h_2 => cases h
  case h_3 startIdx endIdx hstart hend =>
    obtain rfl : endIdx = startIdx := Option.some.inj (hend.symm.trans hstart)
    obtain ⟨hlt, hget, -⟩ := List.idxOf?_eq_some_iff.mp hstart
    have hnode : state.nodes[endIdx] = start := by simpa using hget
    rw [if_neg (lt_irrefl _), Nat.add_sub_cancel_left, List.take_one_drop_eq_of_lt_length hlt] at h
    cases h
    exact ⟨by rw [← hnode]; rfl, hnode ▸ List.getElem_mem hlt⟩

theorem surfaceOpOf_congr {event event' : Json} (htype : event.get? "type" = event'.get? "type")
    (hop : event.get? "surfaceOp" = event'.get? "surfaceOp")
    (hsources : event.get? "sourceEventSeqs" = event'.get? "sourceEventSeqs") :
    surfaceOpOf event = surfaceOpOf event' := by
  rw [surfaceOpOf, surfaceOpOf, htype, hop, hsources]

/-- **In an upgraded log every rewrite of a result passes**, when the stored log rewrote contents
alone. -/
theorem rewrite_passes {events snapshots before rest : List Json} {event : Json} {id : JsString}
    {state : SurfaceFoldState} {start stop i j : ℕ} {shadowed : List ℕ}
    (h : snapshotStoredEvents events id = .ok snapshots) (hwf : ∀ e ∈ events, Json.WF e)
    (halone : LegacyRewritesAlone events) (hsplit : snapshots = before ++ event :: rest)
    (hstate : surfaceAfter before = .ok state)
    (hop : surfaceOpOf event = .ok (some (.replace start stop)))
    (hrange : replacementRange state start stop = .ok (i, j, shadowed)) :
    assertToolResultRewrite event shadowed before 0 = .ok () := by
  by_cases htype : hasType "tool/result" event = true
  swap
  · rw [assertToolResultRewrite.eq_def, if_pos fun hc ↦ htype (decide_eq_true hc)]
  have hresult := of_decide_eq_true htype
  obtain ⟨hlength, hevents⟩ := snapshotStoredEvents_getElem? h
  have hat : snapshots[before.length]? = some event := by simp [hsplit]
  have hbound : before.length < events.length :=
    hlength ▸ (List.getElem?_eq_some_iff.mp hat).1
  -- The stored event, and what the upgrade says of it.
  obtain ⟨snapshot, hsnapshot, hevent⟩ := hevents (List.getElem?_eq_getElem hbound)
  obtain rfl : event = snapshot := Option.some.inj (hat.symm.trans hsnapshot)
  generalize hstored : events[before.length] = stored at hevent
  have hbefore : snapshots.take before.length = before := by simp [hsplit]
  rw [hbefore] at hevent
  have hstoredType : hasType "tool/result" stored = true :=
    (snapshotStoredEvent_hasType hevent (by simp) (by simp)).symm.trans htype
  have hstoredOp : surfaceOpOf stored = .ok (some (.replace start stop)) := by
    refine (surfaceOpOf_congr ?_ ?_ ?_).trans hop
    · exact (of_decide_eq_true hstoredType).trans hresult.symm
    · exact (snapshotStoredEvent_get? hevent (by simp) (by simp)).symm
    · exact (snapshotStoredEvent_get? hevent (by simp) (by simp)).symm
  obtain ⟨rfl, original, horiginal, ⟨d, e, horiginalType, hrecord, he, hequal⟩⟩ :=
    halone before.length stored start stop (hstored ▸ List.getElem?_eq_getElem hbound) hstoredType
      hstoredOp
  -- The event it replaces.
  obtain ⟨rfl, hnode⟩ := shadowed_singleton hrange
  have hstart : stop < before.length := below_surfaceAfter hstate stop hnode
  obtain ⟨target, htarget, htargetEvent⟩ := hevents horiginal
  have htargetBefore : before[stop]? = some target := by
    rwa [hsplit, List.getElem?_append_left hstart] at htarget
  have hwfOriginal := hwf original (List.mem_of_getElem? horiginal)
  have hwfStored := hwf stored (hstored ▸ List.getElem_mem hbound)
  have hlegacy := ChangesContentAlone.legacy hwfOriginal horiginalType hrecord he hequal
    htargetEvent
  obtain ⟨m, hupgraded⟩ := he.upgrade hevent
  obtain ⟨m', hupgraded'⟩ := hlegacy.upgrade htargetEvent
  obtain rfl : m' = m := by
    have hfound := find_recordAll (inPlace_of_surfaceAfter hstate) htargetBefore
      hupgraded'.eventMessageId
    rw [hupgraded.inherited _ (replacementStart_of_surfaceOp hstoredOp)] at hfound
    exact (Option.some.inj hfound).symm
  have hdnd := (hwfOriginal.of_get? (asRecord_eq_some hrecord)).nodup
  have hend := (hwfStored.of_get? (asRecord_eq_some he.record)).nodup
  obtain ⟨x, y, hx, hy, hxy⟩ := withoutContent_upgraded m' hlegacy he hdnd hend fun k hk ↦ by
    have hsame := sameJson_fieldOf (nodup_omitFields _ hdnd) hequal k
    rwa [fieldOf_omitFields, fieldOf_omitFields, if_neg (by simpa using hk),
      if_neg (by simpa using hk)] at hsame
  have htargetType : target.get? "type" = some (text "tool/result") :=
    of_decide_eq_true ((snapshotStoredEvent_hasType htargetEvent (by simp) (by simp)).trans
      horiginalType)
  rw [assertToolResultRewrite.eq_def, if_neg (not_not.mpr hresult)]
  simp only [eventAt, Nat.zero_le, ↓reduceIte, Nat.sub_zero, htargetBefore, Value.get_some,
    htargetType, hupgraded.payload, hupgraded'.payload, hx, hy, hxy, ne_eq, not_true_eq_false]

/-! ## Stability -/

/-- An event kept its place, its time and what it says to the surface. -/
structure SameEnvelope (event snapshot : Json) : Prop where
  seq : snapshot.get? "seq" = event.get? "seq"
  time : snapshot.get? "time" = event.get? "time"
  surfaceOp : snapshot.get? "surfaceOp" = event.get? "surfaceOp"
  sourceEventSeqs : snapshot.get? "sourceEventSeqs" = event.get? "sourceEventSeqs"

/-- What is said of a stored log and the log it was upgraded to. -/
structure StableMigration (id : JsString) (events snapshots : List Json) : Prop where
  adopted : adoptStoredEvents events id = .ok snapshots
  fixed : snapshotStoredEvents snapshots id = .ok snapshots
  envelopes : List.Forall₂ SameEnvelope events snapshots
  /-- If contents alone were rewritten, the surface finds no fault with that. -/
  rewrites : LegacyRewritesAlone events → ∀ fault, foldSurface snapshots = .error fault →
    fault.isRewrite = false

/-- **Upgrading is stable**: adopting does the same, doing it again does nothing, every event keeps
its envelope, and rewritten contents stay rewritten contents. -/
theorem snapshotStoredEvents_stable (events : List SessionEvent) (id : JsString) :
    match snapshotStoredEvents (events.map SessionEvent.json) id with
    | .error _ => True
    | .ok snapshots => StableMigration id (events.map SessionEvent.json) snapshots := by
  have hwf : ∀ e ∈ events.map SessionEvent.json, Json.WF e := by
    intro e he
    obtain ⟨event, -, rfl⟩ := List.mem_map.mp he
    exact event.json_wf
  split
  case h_1 => trivial
  case h_2 snapshots h =>
    obtain ⟨hlength, hevents⟩ := snapshotStoredEvents_getElem? h
    refine ⟨(adoptStoredEvents_eq _ id).trans h,
      snapshotStoredEvents_of_current (isCurrent_snapshots h) id, ?_,
      fun halone fault hfault ↦ ?_⟩
    · refine List.forall₂_iff_get.mpr ⟨hlength.symm, fun k hk hk' ↦ ?_⟩
      obtain ⟨snapshot, hsnapshot, hevent⟩ := hevents (List.getElem?_eq_getElem hk)
      rw [List.getElem?_eq_getElem hk'] at hsnapshot
      obtain rfl := Option.some.inj hsnapshot
      exact ⟨snapshotStoredEvent_get? hevent (by simp) (by simp),
        snapshotStoredEvent_get? hevent (by simp) (by simp),
        snapshotStoredEvent_get? hevent (by simp) (by simp),
        snapshotStoredEvent_get? hevent (by simp) (by simp)⟩
    · rw [← Bool.not_eq_true]
      intro hrewrite
      have hafter : surfaceAfter snapshots = .error fault := by
        rw [← foldSurface_eq, hfault]
        rfl
      obtain ⟨before, event, rest, state, hsplit, hstate, hplan⟩ :=
        Replay.exists_of_replay_eq_error hafter
      obtain ⟨start, stop, i, j, shadowed, hop, hrange, hrefused⟩ :=
        rewrite_of_planNext hplan hrewrite
      exact nomatch hrefused.symm.trans (rewrite_passes h hwf halone hsplit hstate hop hrange)

end XxAgent
