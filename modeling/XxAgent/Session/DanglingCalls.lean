import XxAgent.Session.Repair

/-!
# Dangling tool calls

Whether every call that the open step requested is answered once the log is repaired. The scanner
forgets a pending call on any tool result with its id, also on one that rewrites an earlier result
in place. Call ids are the provider's, so the rewritten result may belong to an earlier step that
used the same id; then nothing answers the call of the open step.

`Waiting` says which calls the scanner still expects, in terms of the events of the open step
alone, and the exact condition is read off from it.
-/

namespace XxAgent

open Ecma

/-- The events of the step that is open at the end of the log, if one is. -/
def openStepEvents (log : List LogEvent) : Option (List LogEvent) :=
  log.foldl (fun tail event ↦
    match event.data with
    | .stepStart _ _ => some []
    | .stepEnd _ _ => none
    | _ => tail.map (· ++ [event])) none

/-- An append tool result of a call. -/
def LogEvent.Answers (event : LogEvent) (callId : CallId) : Prop :=
  event.resultOf = some callId ∧ event.surfaceOp = some .append

instance (event : LogEvent) (callId : CallId) : Decidable (event.Answers callId) :=
  inferInstanceAs (Decidable (_ ∧ _))

/-- A tool result of a call that replaces what is on the surface. -/
def LogEvent.Rewrites (event : LogEvent) (callId : CallId) : Prop :=
  event.resultOf = some callId ∧ event.surfaceOp ≠ some .append

/-- After the repair, every call that a message of the open step requests is answered behind it. -/
def NoDanglingCall (log : List LogEvent) : Prop :=
  ∀ tail, openStepEvents log = some tail → ∀ message ∈ tail, ∀ callId ∈ message.requests,
    ∃ result ∈ log ++ interruptedTurnClosers log, result.Answers callId ∧ message.seq < result.seq

/-- A call whose result is rewritten behind the last message that requests it, in the open step, is
also answered behind that message. -/
def RewritesAnswered (log : List LogEvent) : Prop :=
  ∀ before message after callId, openStepEvents log = some (before ++ message :: after) →
    callId ∈ message.requests → (∀ later ∈ after, callId ∉ later.requests) →
    (∃ result ∈ after, result.Rewrites callId) → ∃ result ∈ after, result.Answers callId

/-! ## What the scanner expects -/

/-- A message requests the call and no tool result of it follows. -/
def Waiting (tail : List LogEvent) (callId : CallId) : Prop :=
  ∃ before message after, tail = before ++ message :: after ∧ callId ∈ message.requests ∧
    ∀ result ∈ after, result.resultOf ≠ some callId

theorem waiting_nil (callId : CallId) : ¬ Waiting [] callId := by
  rintro ⟨before, message, after, h, -⟩
  exact absurd h.symm (List.append_ne_nil_of_right_ne_nil _ (List.cons_ne_nil _ _))

theorem waiting_concat {tail : List LogEvent} {event : LogEvent} {callId : CallId} :
    Waiting (tail ++ [event]) callId ↔
      callId ∈ event.requests ∨ Waiting tail callId ∧ event.resultOf ≠ some callId := by
  constructor
  · rintro ⟨before, message, after, h, hreq, hnone⟩
    rcases after.eq_nil_or_concat with rfl | ⟨after, last, rfl⟩
    · obtain ⟨-, hlast⟩ := List.append_inj' h rfl
      rw [(List.cons.inj hlast).1]
      exact .inl hreq
    · rw [List.concat_eq_append, ← List.cons_append, ← List.append_assoc] at h
      obtain ⟨rfl, hlast⟩ := List.append_inj' h rfl
      rw [(List.cons.inj hlast).1]
      refine .inr ⟨⟨before, message, after, rfl, hreq, fun result hmem ↦ ?_⟩, ?_⟩
      · exact hnone result (List.concat_eq_append ▸ List.mem_append_left _ hmem)
      · exact hnone last (List.concat_eq_append ▸ List.mem_append_right _ (List.mem_singleton_self _))
  · rintro (hreq | ⟨⟨before, message, after, rfl, hreq, hnone⟩, hne⟩)
    · exact ⟨tail, event, [], rfl, hreq, fun _ hmem ↦ absurd hmem List.not_mem_nil⟩
    · refine ⟨before, message, after ++ [event], by rw [List.append_assoc]; rfl, hreq, ?_⟩
      intro result hmem
      rcases List.mem_append.mp hmem with hmem | hmem
      · exact hnone result hmem
      · rwa [List.mem_singleton.mp hmem]

/-- What an event inside a step does to the calls the scanner expects. -/
theorem mem_scanEvent_iff {scan : RepairScan} {event : LogEvent} (callId : CallId)
    (hturn : ∀ turn, event.data ≠ .turnStart turn)
    (hend : ∀ turn kind, event.data ≠ .turnEnd turn kind)
    (hstep : ∀ turn step, event.data ≠ .stepEnd turn step) :
    (∃ entry, (callId, entry) ∈ (scanEvent scan event).pendingCalls.entries) ↔
      callId ∈ event.requests ∨
        (∃ entry, (callId, entry) ∈ scan.pendingCalls.entries) ∧ event.resultOf ≠ some callId := by
  have hquiet (hreq : event.requests = []) (hres : event.resultOf = none) :
      (∃ entry, (callId, entry) ∈ scan.pendingCalls.entries) ↔ callId ∈ event.requests ∨
        (∃ entry, (callId, entry) ∈ scan.pendingCalls.entries) ∧ event.resultOf ≠ some callId := by
    simp [hreq, hres]
  cases hd : event.data with
  | turnStart turn => exact absurd hd (hturn turn)
  | turnEnd turn kind => exact absurd hd (hend turn kind)
  | stepEnd turn step => exact absurd hd (hstep turn step)
  | assistantMessage turn step content =>
    have hres : event.resultOf = none := by rw [LogEvent.resultOf, hd]
    simp only [scanEvent, hd, OrderedMap.mem_foldl_set, hres]
    by_cases hmem : callId ∈ event.requests
    · simp [hmem]
    · simp [hmem]
  | toolCall turn step id =>
    rw [scanEvent]
    simp only [hd]
    refine Iff.trans ?_ (hquiet (by rw [LogEvent.requests, hd]) (by rw [LogEvent.resultOf, hd]))
    rcases hget : scan.pendingCalls.get? id with _ | entry
    · exact Iff.rfl
    · -- Setting a key that is there changes no key.
      simp only [OrderedMap.mem_set]
      constructor
      · rintro ⟨entry', ⟨rfl, -⟩ | ⟨-, hmem⟩⟩
        · exact ⟨entry, OrderedMap.mem_of_get? hget⟩
        · exact ⟨entry', hmem⟩
      · rintro ⟨entry', hmem⟩
        by_cases hid : callId = id
        · exact ⟨_, .inl ⟨hid, rfl⟩⟩
        · exact ⟨entry', .inr ⟨hid, hmem⟩⟩
  | toolResult turn step message error =>
    have hreq : event.requests = [] := by rw [LogEvent.requests, hd]
    have hres : event.resultOf = some message.callId := by rw [LogEvent.resultOf, hd]
    simp only [scanEvent, hd, OrderedMap.mem_delete, hreq, hres, ne_eq,
      Option.some.injEq, List.not_mem_nil, false_or, exists_and_left]
    rw [and_comm, @eq_comm _ callId]
  | _ =>
    rw [scanEvent]
    simp only [hd]
    exact hquiet (by rw [LogEvent.requests, hd]) (by rw [LogEvent.resultOf, hd])

/-! ## The open step of an accepted log -/

/-- The open step of a log, beside the checker's account of it. -/
structure OpenStepAccount (log : List LogEvent) (trace : SessionTrace) : Prop
    extends Accounts log trace where
  sorted : log.Pairwise fun a b ↦ a.seq < b.seq
  openStep : openStepEvents log = none ↔ trace.openStep = none
  suffix : ∀ tail, openStepEvents log = some tail → tail <:+ log
  waiting : ∀ tail, openStepEvents log = some tail → ∀ callId,
    (∃ entry, (callId, entry) ∈ (scanEvents log).pendingCalls.entries) ↔ Waiting tail callId

/-- A turn begins and ends, and a step begins, only where no step is open. -/
theorem openStep_eq_none_of_boundary {trace : SessionTrace} {event : LogEvent}
    {transition : SessionTraceTransition} (henclosed : trace.openTurn = none → trace.openStep = none)
    (hv : validateData trace event = .ok transition)
    (h : (∃ turn, event.data = .turnStart turn) ∨ (∃ turn kind, event.data = .turnEnd turn kind) ∨
      ∃ turn step, event.data = .stepStart turn step) : trace.openStep = none := by
  grind [validateData]

/-- What an event does to the open step. -/
theorem openStepEvents_concat (log : List LogEvent) (event : LogEvent) :
    openStepEvents (log ++ [event]) =
      match event.data with
      | .stepStart _ _ => some []
      | .stepEnd _ _ => none
      | _ => (openStepEvents log).map (· ++ [event]) := by
  rw [openStepEvents, List.foldl_concat]
  rfl

private theorem sorted_concat {log : List LogEvent} {event : LogEvent}
    (h : log.Pairwise fun a b ↦ a.seq < b.seq)
    (hlast : ∀ last, log.getLast? = some last → last.seq < event.seq) :
    (log ++ [event]).Pairwise fun a b ↦ a.seq < b.seq := by
  refine List.pairwise_append.mpr ⟨h, List.pairwise_singleton _ _, fun a ha b hb ↦ ?_⟩
  rw [List.mem_singleton.mp hb]
  rcases log.eq_nil_or_concat with rfl | ⟨init, last, rfl⟩
  · exact absurd ha List.not_mem_nil
  · rw [List.concat_eq_append] at h ha hlast
    have hl : last.seq < event.seq := hlast last List.getLast?_concat
    rcases List.mem_append.mp ha with hinit | hl'
    · exact ((List.pairwise_append.mp h).2.2 a hinit last (List.mem_singleton_self _)).trans hl
    · rwa [List.mem_singleton.mp hl']

/-- An accepted event that leaves the open step as it is, and belongs to it. -/
private theorem OpenStepAccount.concat_inside {log : List LogEvent} {trace trace' : SessionTrace}
    (h : OpenStepAccount log trace) {event : LogEvent} (hacc : Accounts (log ++ [event]) trace')
    (hsorted : (log ++ [event]).Pairwise fun a b ↦ a.seq < b.seq)
    (hmap : openStepEvents (log ++ [event]) = (openStepEvents log).map (· ++ [event]))
    (hstep : trace'.openStep = trace.openStep)
    (hwaiting : ∀ callId, openStepEvents log ≠ none →
      ((∃ entry, (callId, entry) ∈ (scanEvents (log ++ [event])).pendingCalls.entries) ↔
        callId ∈ event.requests ∨
          (∃ entry, (callId, entry) ∈ (scanEvents log).pendingCalls.entries) ∧
            event.resultOf ≠ some callId)) : OpenStepAccount (log ++ [event]) trace' := by
  refine { hacc with sorted := hsorted, openStep := ?_, suffix := ?_, waiting := ?_ }
  · rw [hmap, Option.map_eq_none_iff, h.openStep, hstep]
  · intro tail htail
    rw [hmap] at htail
    obtain ⟨before, hbefore, rfl⟩ := Option.map_eq_some_iff.mp htail
    obtain ⟨init, hinit⟩ := h.suffix before hbefore
    exact ⟨init, by rw [← List.append_assoc, hinit]⟩
  · intro tail htail callId
    rw [hmap] at htail
    obtain ⟨before, hbefore, rfl⟩ := Option.map_eq_some_iff.mp htail
    rw [hwaiting callId (by rw [hbefore]; nofun), waiting_concat, h.waiting before hbefore callId]

/-- One accepted event. -/
theorem OpenStepAccount.concat {log : List LogEvent} {trace : SessionTrace}
    (h : OpenStepAccount log trace) {event : LogEvent} {transition : SessionTraceTransition}
    (hv : validateEvent trace event = .ok transition) :
    OpenStepAccount (log ++ [event]) (applyTransition trace transition) := by
  have hacc := h.toAccounts.concat hv
  obtain ⟨hlt, hdata⟩ := validateEvent_eq_ok.mp hv
  have hafter : ∀ last, log.getLast? = some last → last.seq < event.seq := by
    intro last hlast
    rw [h.lastSeq last hlast] at hlt
    exact_mod_cast hlt
  have hsorted := sorted_concat h.sorted hafter
  have hstep : (applyTransition trace transition).openStep
      = (scanEvent (scanEvents log) event).openStep := by
    rw [← hacc.agrees.step, scanEvents_concat]
  have hnone := openStep_eq_none_of_boundary h.agrees.enclosed hdata
  have hevents := openStepEvents_concat log event
  have hpending := @mem_scanEvent_iff (scanEvents log) event
  cases hd : event.data with
  | stepStart turn step =>
    rw [hd] at hevents
    refine { hacc with sorted := hsorted, openStep := ?_, suffix := ?_, waiting := ?_ }
    · rw [hevents, hstep, scanEvent, hd]
      simp
    · intro tail htail
      rw [hevents] at htail
      rw [← Option.some.inj htail]
      exact List.nil_suffix
    · intro tail htail callId
      rw [hevents] at htail
      rw [← Option.some.inj htail, scanEvents_concat, scanEvent, hd]
      simp only [h.agrees.entries_eq_nil (hnone (.inr (.inr ⟨turn, step, hd⟩)))]
      refine ⟨?_, fun hw ↦ absurd hw (waiting_nil callId)⟩
      rintro ⟨_, hmem⟩
      exact absurd hmem List.not_mem_nil
  | stepEnd turn step =>
    rw [hd] at hevents
    refine { hacc with sorted := hsorted, openStep := ?_, suffix := ?_, waiting := ?_ }
    · rw [hevents, hstep, scanEvent, hd]
      exact ⟨fun _ ↦ rfl, fun _ ↦ rfl⟩
    · simp [hevents]
    · simp [hevents]
  | turnStart turn =>
    have hopen := hnone (.inl ⟨turn, hd⟩)
    rw [hd] at hevents
    refine h.concat_inside hacc hsorted hevents ?_ fun _ hsome ↦ absurd (h.openStep.mpr hopen) hsome
    rw [hstep, scanEvent, hd, hopen]
  | turnEnd turn kind =>
    have hopen := hnone (.inr (.inl ⟨turn, kind, hd⟩))
    rw [hd] at hevents
    refine h.concat_inside hacc hsorted hevents ?_ fun _ hsome ↦ absurd (h.openStep.mpr hopen) hsome
    rw [hstep, scanEvent, hd, hopen]
  | toolCall turn step id =>
    rw [hd] at hevents
    refine h.concat_inside hacc hsorted hevents ?_ fun callId _ ↦ ?_
    · rw [hstep, ← h.agrees.step, scanEvent, hd]
      rcases hget : (scanEvents log).pendingCalls.get? id with _ | entry
      · simp only [hget]
      · simp only [hget]
    · rw [scanEvents_concat]
      exact hpending callId (by simp [hd]) (by simp [hd]) (by simp [hd])
  | _ =>
    rw [hd] at hevents
    refine h.concat_inside hacc hsorted hevents ?_ fun callId _ ↦ ?_
    · rw [hstep, ← h.agrees.step, scanEvent, hd]
    · rw [scanEvents_concat]
      exact hpending callId (by simp [hd]) (by simp [hd]) (by simp [hd])

/-- Every accepted log has an account of its open step. -/
theorem openStepAccount_of_seedSession {log : List LogEvent} :
    ∀ {trace : SessionTrace}, seedSession log = .ok trace → OpenStepAccount log trace := by
  induction log using List.reverseRecOn with
  | nil =>
    intro trace h
    have hacc := accounts_of_seedSession h
    refine { hacc with
      sorted := List.Pairwise.nil
      openStep := ⟨fun _ ↦ ?_, fun _ ↦ rfl⟩
      suffix := fun _ htail ↦ by cases htail
      waiting := fun _ htail ↦ by cases htail }
    rw [← Except.ok.inj h]
    rfl
  | append_singleton log event ih =>
    intro trace h
    rw [seedSession, Replay.replay_concat] at h
    obtain ⟨before, hbefore, hadmit⟩ := Replay.bind_eq_ok.mp h
    obtain ⟨transition, hv, rfl⟩ := Replay.map_eq_ok.mp hadmit
    exact (ih hbefore).concat hv

/-! ## The closers of the waiting calls -/

/-- A waiting call is answered behind the log. -/
theorem exists_resultCloser {turn : ℕ} {time : Number} {callId : CallId} {entry : PendingCall} :
    ∀ {entries : List (CallId × PendingCall)} {seq : ℕ}, (callId, entry) ∈ entries →
      ∃ n ≥ seq, resultCloser turn time n callId entry ∈ resultClosers turn time seq entries := by
  intro entries
  induction entries with
  | nil => exact fun h ↦ absurd h List.not_mem_nil
  | cons p entries ih =>
    intro seq h
    rcases List.mem_cons.mp h with rfl | h
    · exact ⟨seq, le_rfl, List.mem_cons_self⟩
    · obtain ⟨n, hn, hmem⟩ := @ih (seq + 1) h
      exact ⟨n, (Nat.le_succ seq).trans hn, List.mem_cons_of_mem _ hmem⟩

/-- A closer that answers a call answers a pending one. -/
theorem pending_of_resultCloser {turn : ℕ} {time : Number} {result : LogEvent} {callId : CallId}
    (hres : result.resultOf = some callId) :
    ∀ {entries : List (CallId × PendingCall)} {seq : ℕ},
      result ∈ resultClosers turn time seq entries → ∃ entry, (callId, entry) ∈ entries := by
  intro entries
  induction entries with
  | nil => exact fun h ↦ absurd h List.not_mem_nil
  | cons p entries ih =>
    intro seq h
    rcases List.mem_cons.mp h with rfl | h
    · obtain ⟨id, entry⟩ := p
      rw [← Option.some.inj hres]
      exact ⟨entry, List.mem_cons_self⟩
    · obtain ⟨entry, hmem⟩ := ih h
      exact ⟨entry, List.mem_cons_of_mem _ hmem⟩

theorem resultOf_boundaryClosers {turn : ℕ} {time : Number} {seq : ℕ} {step : Option ℕ}
    {result : LogEvent} (h : result ∈ boundaryClosers turn time seq step) :
    result.resultOf = none := by
  rcases step with _ | step
  · rw [boundaryClosers, List.mem_singleton] at h
    rw [h]
    rfl
  · rw [boundaryClosers, List.mem_cons, List.mem_singleton] at h
    rcases h with rfl | rfl
    · rfl
    · rfl

/-! ## The exact condition -/

private theorem exists_last_of_mem {α : Type*} {p : α → Prop} {l : List α} (h : ∃ x ∈ l, p x) :
    ∃ before x after, l = before ++ x :: after ∧ p x ∧ ∀ y ∈ after, ¬ p y := by
  induction l with
  | nil =>
    obtain ⟨x, hx, -⟩ := h
    exact absurd hx List.not_mem_nil
  | cons a l ih =>
    by_cases hl : ∃ x ∈ l, p x
    · obtain ⟨before, x, after, rfl, hx, hafter⟩ := ih hl
      exact ⟨a :: before, x, after, rfl, hx, hafter⟩
    · obtain ⟨x, hx, hp⟩ := h
      rcases List.mem_cons.mp hx with rfl | hx
      · exact ⟨[], x, l, rfl, hp, fun y hy hpy ↦ hl ⟨y, hy, hpy⟩⟩
      · exact absurd ⟨x, hx, hp⟩ hl

/-- Behind an event means at a later seq. -/
private theorem mem_after_iff {log before after : List LogEvent} {message result : LogEvent}
    (hsorted : log.Pairwise fun a b ↦ a.seq < b.seq) (hsuffix : before ++ message :: after <:+ log)
    (hmem : result ∈ log) : message.seq < result.seq ↔ result ∈ after := by
  obtain ⟨init, rfl⟩ := hsuffix
  rw [← List.append_assoc] at hsorted hmem
  obtain ⟨-, hrest, hacross⟩ := List.pairwise_append.mp hsorted
  constructor
  · intro hlt
    rcases List.mem_append.mp hmem with hearly | hlate
    · exact absurd (hacross result hearly message List.mem_cons_self) (Nat.not_lt_of_gt hlt)
    · rcases List.mem_cons.mp hlate with rfl | hafter
      · exact absurd hlt (Nat.lt_irrefl _)
      · exact hafter
  · exact fun hafter ↦ (List.pairwise_cons.mp hrest).1 result hafter

/-- A waiting call of the open step is answered by the repair, behind the whole log. -/
theorem exists_answer_of_waiting {log tail : List LogEvent} {trace : SessionTrace}
    (h : OpenStepAccount log trace) (htail : openStepEvents log = some tail) {callId : CallId}
    (hwaiting : Waiting tail callId) : ∃ result ∈ interruptedTurnClosers log,
      result.Answers callId ∧ ∀ event ∈ log, event.seq < result.seq := by
  obtain ⟨entry, hentry⟩ := (h.waiting tail htail callId).mpr hwaiting
  have hstep : trace.openStep ≠ none := fun hnone ↦ by
    rw [h.openStep.mpr hnone] at htail
    exact absurd htail nofun
  obtain ⟨turn, hturn⟩ : ∃ turn, (scanEvents log).openTurn = some turn := by
    rw [h.agrees.turn]
    exact Option.ne_none_iff_exists'.mp fun hnone ↦ hstep (h.agrees.enclosed hnone)
  obtain ⟨last, hlast⟩ := exists_getLast_of_openTurn hturn
  obtain ⟨n, hn, hmem⟩ :=
    @exists_resultCloser turn last.time callId entry _ (last.seq + 1) hentry
  refine ⟨resultCloser turn last.time n callId entry, ?_, ⟨rfl, rfl⟩,
    fun event hevent ↦ lt_of_lt_of_le ?_ hn⟩
  · rw [interruptedTurnClosers_eq hturn hlast]
    exact List.mem_append_left _ hmem
  · obtain ⟨init, rfl⟩ := List.getLast?_eq_some_iff.mp hlast
    rcases List.mem_append.mp hevent with hinit | hl
    · exact Nat.lt_succ_of_lt
        ((List.pairwise_append.mp h.sorted).2.2 event hinit last (List.mem_singleton_self _))
    · rw [List.mem_singleton.mp hl]
      exact Nat.lt_succ_self _

/-- A closer answers waiting calls only. -/
theorem waiting_of_answer {log tail : List LogEvent} {trace : SessionTrace}
    (h : OpenStepAccount log trace) (htail : openStepEvents log = some tail) {callId : CallId}
    {result : LogEvent} (hmem : result ∈ interruptedTurnClosers log)
    (hres : result.resultOf = some callId) : Waiting tail callId := by
  rcases hturn : (scanEvents log).openTurn with _ | turn
  · rw [interruptedTurnClosers_of_closed hturn] at hmem
    exact absurd hmem List.not_mem_nil
  · obtain ⟨last, hlast⟩ := exists_getLast_of_openTurn hturn
    rw [interruptedTurnClosers_eq hturn hlast] at hmem
    rcases List.mem_append.mp hmem with hmem | hmem
    · exact (h.waiting tail htail callId).mp (pending_of_resultCloser hres hmem)
    · rw [resultOf_boundaryClosers hmem] at hres
      exact absurd hres nofun

/-- No call waits whose last request is followed by a result. -/
private theorem not_waiting {before after : List LogEvent} {message result : LogEvent}
    {callId : CallId} (hlast : ∀ later ∈ after, callId ∉ later.requests) (hmem : result ∈ after)
    (hres : result.resultOf = some callId) : ¬ Waiting (before ++ message :: after) callId := by
  rintro ⟨before', message', after', heq, hreq, hnone⟩
  rcases List.append_eq_append_iff.mp heq with ⟨mid, rfl, hmid⟩ | ⟨mid, rfl, hmid⟩
  · rcases mid with _ | ⟨m, mid⟩
    · obtain ⟨rfl, rfl⟩ := List.cons.inj hmid
      exact hnone result hmem hres
    · obtain ⟨rfl, rfl⟩ := List.cons.inj hmid
      exact hlast message' (List.mem_append_right _ List.mem_cons_self) hreq
  · rcases mid with _ | ⟨m, mid⟩
    · obtain ⟨rfl, rfl⟩ := List.cons.inj hmid
      exact hnone result hmem hres
    · obtain ⟨rfl, rfl⟩ := List.cons.inj hmid
      exact hnone result (List.mem_append_right _ (List.mem_cons_of_mem _ hmem)) hres

/-- **When the repair leaves no dangling call.** -/
theorem noDanglingCall_iff {log : List LogEvent} {trace : SessionTrace}
    (h : seedSession log = .ok trace) : NoDanglingCall log ↔ RewritesAnswered log := by
  have hacc := openStepAccount_of_seedSession h
  constructor
  · rintro hno before message after callId htail hreq hlast ⟨rewrite, hrewrite, hres, -⟩
    obtain ⟨result, hmem, hanswers, hlt⟩ := hno _ htail message
      (List.mem_append_right _ List.mem_cons_self) callId hreq
    rcases List.mem_append.mp hmem with hlog | hcloser
    · exact ⟨result, (mem_after_iff hacc.sorted (hacc.suffix _ htail) hlog).mp hlt, hanswers⟩
    · exact absurd (waiting_of_answer hacc htail hcloser hanswers.1)
        (not_waiting hlast hrewrite hres)
  · intro hrewrites tail htail message hmem callId hreq
    obtain ⟨before, after, rfl⟩ := List.append_of_mem hmem
    obtain ⟨mid, last, after', hsplit, hlastreq, hlast⟩ :=
      exists_last_of_mem (p := fun e ↦ callId ∈ e.requests) ⟨message, List.mem_cons_self, hreq⟩
    have htail' : openStepEvents log = some ((before ++ mid) ++ last :: after') := by
      rw [htail, hsplit, List.append_assoc]
    have hle : message.seq ≤ last.seq := by
      rcases mid with _ | ⟨m, mid⟩
      · rw [(List.cons.inj hsplit).1]
      · have hlater : last ∈ after := by
          rw [(List.cons.inj hsplit).2]
          exact List.mem_append_right _ List.mem_cons_self
        obtain ⟨init, hinit⟩ := hacc.suffix _ htail
        have hlog : last ∈ log := by
          rw [← hinit]
          exact List.mem_append_right _ (List.mem_append_right _ (List.mem_cons_of_mem _ hlater))
        exact ((mem_after_iff hacc.sorted (hacc.suffix _ htail) hlog).mpr hlater).le
    have hbehind (result : LogEvent) (hafter : result ∈ after') :
        result ∈ log ∧ message.seq < result.seq := by
      obtain ⟨init, hinit⟩ := hacc.suffix _ htail'
      have hlog : result ∈ log := by
        rw [← hinit]
        exact List.mem_append_right _ (List.mem_append_right _ (List.mem_cons_of_mem _ hafter))
      exact ⟨hlog, hle.trans_lt ((mem_after_iff hacc.sorted (hacc.suffix _ htail') hlog).mpr hafter)⟩
    by_cases hres : ∃ result ∈ after', result.resultOf = some callId
    · obtain ⟨result, hafter, hres⟩ := hres
      obtain ⟨answer, hanswer, hanswers⟩ : ∃ result ∈ after', result.Answers callId := by
        by_cases hop : result.surfaceOp = some .append
        · exact ⟨result, hafter, hres, hop⟩
        · exact hrewrites _ last after' callId htail' hlastreq hlast ⟨result, hafter, hres, hop⟩
      exact ⟨answer, List.mem_append_left _ (hbehind answer hanswer).1, hanswers,
        (hbehind answer hanswer).2⟩
    · have hwaiting : Waiting ((before ++ mid) ++ last :: after') callId :=
        ⟨_, last, after', rfl, hlastreq, fun result hafter hc ↦ hres ⟨result, hafter, hc⟩⟩
      obtain ⟨result, hcloser, hanswers, hall⟩ := exists_answer_of_waiting hacc htail' hwaiting
      obtain ⟨init, hinit⟩ := hacc.suffix _ htail
      have hlog : message ∈ log := by
        rw [← hinit]
        exact List.mem_append_right _ (List.mem_append_right _ List.mem_cons_self)
      exact ⟨result, List.mem_append_right _ hcloser, hanswers, hall message hlog⟩

/-- The exact condition on a step that was cut off before any result. -/
theorem noDanglingCall_iff_step :
    NoDanglingCall interruptedStep ↔ RewritesAnswered interruptedStep :=
  have ⟨_, htrace⟩ : ∃ trace, seedSession interruptedStep = .ok trace := ⟨_, rfl⟩
  noDanglingCall_iff htrace

/-- A tool result of call `c`, from the first step. -/
private def resultOfReused (seq : ℕ) (content : String) (op : SurfaceOp)
    (sources : Option (List ℕ)) : LogEvent where
  seq := seq
  time := .int 5
  data := .toolResult 1 1 ⟨js "m", js "c", ⟨js "c",
    [.obj [prop "type" (text "text"), prop "text" (text content)]], some false⟩⟩ none
  surfaceOp := some op
  sourceEventSeqs := sources

/-- Call `c` is answered in the first step and requested again in the second, where the first
result is then rewritten in place. -/
def reusedCall : List LogEvent := [
  { seq := 0, time := .int 1, data := .turnStart 1 },
  { seq := 1, time := .int 2, data := .stepStart 1 1 },
  { seq := 2, time := .int 3, surfaceOp := some .append,
    data := .assistantMessage 1 1 [.toolCall (js "c")] },
  { seq := 3, time := .int 4, data := .toolCall 1 1 (js "c") },
  resultOfReused 4 "long" .append (some [3]),
  { seq := 5, time := .int 6, data := .stepEnd 1 1 },
  { seq := 6, time := .int 7, data := .stepStart 1 2 },
  { seq := 7, time := .int 8, surfaceOp := some .append,
    data := .assistantMessage 1 2 [.toolCall (js "c")] },
  resultOfReused 8 "short" (.replace 4 4) (some [4])]

/-- Nothing answers the second request of `reusedCall`. -/
theorem reusedCall_dangling :
    (∃ trace, seedSession reusedCall = .ok trace ∧ trace.openTurn = some 1) ∧
      ¬ NoDanglingCall reusedCall := by
  refine ⟨⟨_, rfl, rfl⟩, fun h ↦ ?_⟩
  have hnone : ∀ result ∈ reusedCall ++ interruptedTurnClosers reusedCall,
      ¬ (result.Answers (js "c") ∧ 7 < result.seq) := by decide
  obtain ⟨result, hmem, hanswers, hlt⟩ :=
    h _ rfl _ List.mem_cons_self (js "c") List.mem_cons_self
  exact hnone result hmem ⟨hanswers, hlt⟩

end XxAgent
