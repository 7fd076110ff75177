import XxAgent.Session.Repair

/-!
# Sessions behind an API

A session that is stored by the backend and read by a remote provider. The server numbers the rows
of a session and appends only behind the last one; the provider reads a session through `open`, or
page by page, and closes a turn that a crash has left open. Payloads are given decoded, requests
authenticated, and no receipts are attached to an append.
-/

namespace XxAgent

open Ecma

/-! ## The server -/

inductive SessionPurpose where
  | conversation
  | businessSkillTest
deriving DecidableEq

/-- One row of a stored session. -/
structure EventEnvelope where
  sequence : ℕ
  payload : LogEvent
deriving DecidableEq

/-- A receipt for a proposal of the actor, which the result of this call has to redeem. -/
structure FactProposalReceipt where
  sourceEventSequence : ℕ
  toolCallId : CallId

/-- The body of an append. -/
structure AppendRequest where
  expectedSequence : ℤ
  /-- The seqs that the idempotency key names. -/
  key : ℕ × ℕ
  events : List LogEvent
deriving DecidableEq

structure AppendResult where
  lastEventSequence : ℤ
  version : ℕ

/-- A result that is kept for a repetition of its request. -/
structure IdempotentResult where
  request : AppendRequest
  result : AppendResult

inductive SessionErrorCode where
  | sequenceConflict
  | idempotencyConflict
  | factReceiptInvalid
  /-- The request does not have the shape of its route. -/
  | unprocessable
deriving DecidableEq

/-- A session as the server stores it. -/
structure RemoteSession where
  runtimeHeader : SessionHeader
  purpose : SessionPurpose
  rows : List EventEnvelope
  lastEventSequence : ℤ
  version : ℕ
  factReceipts : List FactProposalReceipt
  results : List IdempotentResult

/-- `_tool_result_call_id` -/
def toolResultCallId (event : LogEvent) : Option CallId :=
  match event.data with
  | .toolResult _ _ message _ =>
    if message.callId = message.block.toolCallId then some message.callId else none
  | _ => none

namespace RemoteSession

/-- `read_events` -/
def readEvents (s : RemoteSession) (afterSequence : ℤ := -1) (limit : ℕ := 500) :
    List EventEnvelope :=
  ((s.rows.filter fun row ↦ afterSequence < row.sequence).mergeSort
    fun row row' ↦ row.sequence ≤ row'.sequence).take limit

/-- `open_session` -/
def openSession (s : RemoteSession) : SessionHeader × SessionPurpose × List EventEnvelope :=
  (s.runtimeHeader, s.purpose, s.readEvents)

/-- `events_route` -/
def eventsRoute (s : RemoteSession) (afterSequence : ℤ) (limit : ℕ) :
    Except SessionErrorCode (List EventEnvelope) :=
  if afterSequence < -1 ∨ limit < 1 ∨ 500 < limit then .error .unprocessable
  else .ok (s.readEvents afterSequence limit)

/-- The receipts that an append of these events has to redeem. -/
def candidateReceipts (s : RemoteSession) (expectedSequence : ℤ) (events : List LogEvent) :
    List FactProposalReceipt :=
  s.factReceipts.filter fun receipt ↦
    (expectedSequence < receipt.sourceEventSequence ∧
      (receipt.sourceEventSequence : ℤ) ≤ expectedSequence + events.length) ∨
    events.any fun event ↦ toolResultCallId event = some receipt.toolCallId

/-- `append_events` -/
def appendEvents (s : RemoteSession) (request : AppendRequest) :
    Except SessionErrorCode (RemoteSession × AppendResult) :=
  match s.results.find? fun stored ↦ stored.request.key = request.key with
  | some stored =>
    if stored.request = request then .ok (s, stored.result) else .error .idempotencyConflict
  | none =>
    if s.lastEventSequence ≠ request.expectedSequence then .error .sequenceConflict
    else if s.candidateReceipts request.expectedSequence request.events ≠ [] then
      .error .factReceiptInvalid
    else
      let result : AppendResult :=
        { lastEventSequence := request.expectedSequence + request.events.length
          version := s.version + 1 }
      .ok ({ s with
        rows := s.rows ++ request.events.mapIdx fun offset event ↦
          ⟨(request.expectedSequence + 1).toNat + offset, event⟩
        lastEventSequence := result.lastEventSequence
        version := result.version
        results := s.results ++ [⟨request, result⟩] }, result)

/-- `append_route` -/
def appendRoute (s : RemoteSession) (request : AppendRequest) :
    Except SessionErrorCode (RemoteSession × AppendResult) :=
  if request.expectedSequence < -1 ∨ request.events.length < 1 ∨ 100 < request.events.length then
    .error .unprocessable
  else s.appendEvents request

end RemoteSession

/-! ## The provider -/

inductive RemoteFault where
  | purpose
  | nonContiguous
  | identityMismatch
  | nonContiguousAppend
  | invalidAppendResponse
  /-- `cannot crash-repair live session` -/
  | live
  | backend (code : SessionErrorCode)
deriving DecidableEq

/-- A header and the events behind it. -/
structure SessionInspection where
  header : SessionHeader
  events : List LogEvent

/-- The payloads of rows that are numbered from a sequence on. -/
def contiguousEvents (expectedSequence : ℕ) : List EventEnvelope → Except RemoteFault (List LogEvent)
  | [] => .ok []
  | envelope :: rows =>
    if envelope.sequence ≠ expectedSequence ∨ envelope.payload.seq ≠ expectedSequence then
      .error .nonContiguous
    else (contiguousEvents (expectedSequence + 1) rows).map (envelope.payload :: ·)

/-- `responseInspection` -/
def responseInspection (response : SessionHeader × SessionPurpose × List EventEnvelope) :
    Except RemoteFault SessionInspection :=
  if response.2.1 ≠ .conversation then .error .purpose
  else (contiguousEvents 0 response.2.2).map (⟨response.1, ·⟩)

/-- `responseEvents` -/
def responseEvents (rows : List EventEnvelope) (expectedSequence : ℕ) :
    Except RemoteFault (List LogEvent) :=
  contiguousEvents expectedSequence rows

namespace RemoteSession

/-- `readInspection` -/
def readInspection (s : RemoteSession) (id : JsString) : Except RemoteFault SessionInspection :=
  (responseInspection s.openSession).bind fun inspected ↦
    if inspected.header.id ≠ id then .error .identityMismatch else .ok inspected

/-- `inspect`; a session that is live here is not asked for. -/
def inspect (s : RemoteSession) (live : Option SessionInspection) (id : JsString) :
    Except RemoteFault SessionInspection :=
  match live with
  | some live => .ok live
  | none => (s.readInspection id).map fun inspected ↦
      { inspected with events := inspected.events ++ interruptedTurnClosers inspected.events }

/-- Each event follows the one before. -/
def isContiguous (first : ℕ) (events : List LogEvent) : Bool :=
  events.map (·.seq) == List.range' first events.length

/-- The body that `append` sends for events. -/
def appendRequest (first last : LogEvent) (events : List LogEvent) : AppendRequest where
  expectedSequence := first.seq - 1
  key := (first.seq, last.seq)
  events := events

/-- `append` -/
def append (s : RemoteSession) (events : List LogEvent) : Except RemoteFault RemoteSession :=
  match events.head?, events.getLast? with
  | some first, some last =>
    if !isContiguous first.seq events then .error .nonContiguousAppend
    else
      match s.appendRoute (appendRequest first last events) with
      | .error code => .error (.backend code)
      | .ok (s', result) =>
        if result.lastEventSequence ≠ last.seq ∨ result.version < 1 then
          .error .invalidAppendResponse
        else .ok s'
  | _, _ => .ok s

/-- `load`, and what it leaves at the server. -/
def load (s : RemoteSession) (live : Option SessionInspection) (id : JsString) :
    Except RemoteFault (SessionInspection × RemoteSession) :=
  match live with
  | some live =>
    if interruptedTurnClosers live.events = [] then .ok (live, s) else .error .live
  | none =>
    (s.readInspection id).bind fun inspected ↦
      let closers := interruptedTurnClosers inspected.events
      (if closers = [] then .ok s else s.append closers).map fun s' ↦
        ({ inspected with events := inspected.events ++ closers }, s')

/-- The loop of `readFrom`. -/
def readPages (s : RemoteSession) : ℕ → ℕ → Option (Except RemoteFault (List LogEvent))
  | 0, _ => none
  | fuel + 1, nextSequence =>
    match s.eventsRoute (nextSequence - 1) 500 with
    | .error code => some (.error (.backend code))
    | .ok rows =>
      match responseEvents rows nextSequence with
      | .error fault => some (.error fault)
      | .ok page =>
        if page.length < 500 then some (.ok page)
        else (s.readPages fuel (nextSequence + page.length)).map (·.map (page ++ ·))

/-- `readFrom`; `none` is a loop that has not ended yet. -/
def readFrom (s : RemoteSession) (fuel fromSeq : ℕ) :
    Option (Except RemoteFault SessionInspection) :=
  (s.readPages fuel fromSeq).map (·.map (⟨s.runtimeHeader, ·⟩))

end RemoteSession

/-!
## Loading a remote session

The paged route returns every event of a stored session. The open route returns the first five
hundred, and crash repair is computed from those; so a session is loaded whole as long as it is no
longer than that, its closers fit into one append and none of them redeems a receipt.
-/

/-! ## Rows -/

/-- The rows of events that are numbered from here on. -/
def numbered (first : ℕ) : List LogEvent → List EventEnvelope
  | [] => []
  | event :: events => ⟨first, event⟩ :: numbered (first + 1) events

theorem numbered_append (first : ℕ) (events events' : List LogEvent) :
    numbered first (events ++ events')
      = numbered first events ++ numbered (first + events.length) events' := by
  induction events generalizing first with
  | nil => rfl
  | cons event events ih =>
    rw [List.cons_append, numbered, numbered, ih, List.cons_append, List.length_cons,
      Nat.add_right_comm, Nat.add_assoc]

theorem take_numbered (first : ℕ) (events : List LogEvent) (n : ℕ) :
    (numbered first events).take n = numbered first (events.take n) := by
  induction events generalizing first n with
  | nil => simp [numbered]
  | cons event events ih =>
    rcases n with _ | n
    · rfl
    · rw [numbered, List.take_succ_cons, ih, List.take_succ_cons, numbered]

theorem le_of_mem_numbered {first : ℕ} {events : List LogEvent} {row : EventEnvelope}
    (h : row ∈ numbered first events) : first ≤ row.sequence := by
  induction events generalizing first with
  | nil => simp [numbered] at h
  | cons event events ih =>
    rcases List.mem_cons.mp h with rfl | h
    · exact Nat.le_refl _
    · exact Nat.le_of_succ_le (ih h)

theorem pairwise_numbered (first : ℕ) (events : List LogEvent) :
    (numbered first events).Pairwise fun row row' ↦
      decide (row.sequence ≤ row'.sequence) = true := by
  induction events generalizing first with
  | nil => exact List.Pairwise.nil
  | cons event events ih =>
    refine List.pairwise_cons.mpr ⟨fun row hrow ↦ ?_, ih (first + 1)⟩
    exact decide_eq_true (Nat.le_of_succ_le (le_of_mem_numbered hrow))

theorem filter_numbered (first skip : ℕ) (events : List LogEvent) :
    (numbered first events).filter (fun row ↦ decide (((first + skip : ℕ) : ℤ) - 1 < row.sequence))
      = numbered (first + skip) (events.drop skip) := by
  induction events generalizing first skip with
  | nil => simp [numbered]
  | cons event events ih =>
    rcases skip with _ | skip
    · apply List.filter_eq_self.mpr
      intro row hrow
      have hle := le_of_mem_numbered hrow
      simp only [decide_eq_true_eq]
      omega
    · rw [numbered, List.filter_cons, if_neg (by simp only [decide_eq_true_eq]; omega),
        List.drop_succ_cons]
      have hnext := ih (first + 1) skip
      rw [Nat.add_right_comm] at hnext
      exact hnext

theorem contiguousEvents_numbered {first : ℕ} {events : List LogEvent}
    (hseqs : events.map (·.seq) = List.range' first events.length) :
    contiguousEvents first (numbered first events) = .ok events := by
  induction events generalizing first with
  | nil => rfl
  | cons event events ih =>
    rw [List.map_cons, List.length_cons, List.range'_succ] at hseqs
    obtain ⟨hseq, hrest⟩ := List.cons.inj hseqs
    rw [numbered, contiguousEvents, if_neg (by simp [hseq]), ih hrest]
    rfl

theorem mapIdx_eq_numbered (first : ℕ) (events : List LogEvent) :
    (events.mapIdx fun offset event ↦ (⟨first + offset, event⟩ : EventEnvelope))
      = numbered first events := by
  induction events generalizing first with
  | nil => rfl
  | cons event events ih =>
    rw [List.mapIdx_cons, numbered, ← ih (first + 1)]
    congr 1
    simp only [Nat.add_assoc, Nat.add_comm 1]

/-- A part of a log that is numbered from zero. -/
theorem map_seq_drop_take {log : List LogEvent}
    (hseqs : log.map (·.seq) = List.range log.length) (skip limit : ℕ) :
    ((log.drop skip).take limit).map (·.seq)
      = List.range' skip ((log.drop skip).take limit).length := by
  rw [List.map_take, List.map_drop, hseqs, List.range_eq_range', List.drop_range',
    List.length_take, List.length_drop, Nat.zero_add, Nat.mul_one]
  rcases Nat.le_total (log.length - skip) limit with hle | hle
  · rw [List.take_range'_of_length_le hle, Nat.min_eq_right hle]
  · rw [List.take_range'_of_length_ge hle, Nat.min_eq_left hle]

namespace RemoteSession

variable {s : RemoteSession} {log : List LogEvent}

/-- **A stored session**: its rows are numbered from zero, carry the events of a log that is
numbered alike, and results are kept only for requests that have been carried out. -/
structure Stores (s : RemoteSession) (log : List LogEvent) : Prop where
  purpose : s.purpose = .conversation
  rows : s.rows = numbered 0 log
  seqs : log.map (·.seq) = List.range log.length
  last : s.lastEventSequence = log.length - 1
  results : ∀ stored ∈ s.results, stored.request.key.2 < log.length

theorem Stores.readEvents (h : Stores s log) (skip limit : ℕ) :
    s.readEvents ((skip : ℤ) - 1) limit = numbered skip ((log.drop skip).take limit) := by
  have hfilter := filter_numbered 0 skip log
  rw [Nat.zero_add] at hfilter
  rw [RemoteSession.readEvents, h.rows, hfilter,
    List.mergeSort_of_pairwise (pairwise_numbered _ _), take_numbered]

/-! ## Reading -/

/-- Whatever its length, the pages of a session make up its log. -/
theorem Stores.readPages (h : Stores s log) :
    ∀ {fuel skip : ℕ}, log.length < skip + fuel → skip ≤ log.length →
      s.readPages fuel skip = some (.ok (log.drop skip)) := by
  intro fuel
  induction fuel with
  | zero =>
    intro skip hlt hle
    omega
  | succ fuel ih =>
    intro skip hlt hle
    have hroute : s.eventsRoute ((skip : ℤ) - 1) 500
        = .ok (numbered skip ((log.drop skip).take 500)) := by
      rw [eventsRoute, if_neg (by omega), h.readEvents]
    have hpage : responseEvents (numbered skip ((log.drop skip).take 500)) skip
        = .ok ((log.drop skip).take 500) :=
      contiguousEvents_numbered (map_seq_drop_take h.seqs skip 500)
    rw [RemoteSession.readPages, hroute]
    simp only [hpage]
    rw [List.length_take, List.length_drop]
    split_ifs with hshort
    · rw [List.take_of_length_le (by rw [List.length_drop]; omega)]
    · have hfull : min 500 (log.length - skip) = 500 := by omega
      rw [hfull, ih (by omega) (by omega)]
      simp only [Option.map_some, Except.map]
      rw [← List.drop_drop, List.take_append_drop]

theorem Stores.readFrom (h : Stores s log) {fuel : ℕ} (hfuel : log.length < fuel) :
    s.readFrom fuel 0 = some (.ok ⟨s.runtimeHeader, log⟩) := by
  rw [RemoteSession.readFrom, h.readPages (by omega) (Nat.zero_le _)]
  rfl

/-- The open route returns no more than a page. -/
theorem Stores.readInspection (h : Stores s log) :
    s.readInspection s.runtimeHeader.id = .ok ⟨s.runtimeHeader, log.take 500⟩ := by
  have hread := h.readEvents 0 500
  have hevents := contiguousEvents_numbered (map_seq_drop_take h.seqs 0 500)
  rw [List.drop_zero] at hread hevents
  rw [RemoteSession.readInspection, openSession, responseInspection]
  simp only [h.purpose, ne_eq, not_true_eq_false, if_false]
  rw [show ((-1 : ℤ)) = ((0 : ℕ) : ℤ) - 1 from rfl, hread, hevents]
  simp [Except.map, Except.bind]

/-! ## Closing an interrupted turn -/

/-- A request that continues the log has not been carried out before. -/
theorem Stores.fresh (h : Stores s log) {first last : LogEvent} {events : List LogEvent}
    (hlast : log.length ≤ last.seq) :
    s.results.find? (fun stored ↦
      stored.request.key = (appendRequest first last events).key) = none := by
  apply List.find?_eq_none.mpr
  intro stored hmem hkey
  have hlt := h.results stored hmem
  rw [of_decide_eq_true hkey] at hlt
  simp only [appendRequest] at hlt
  omega

/-- Events that continue the log are appended, unless one has to redeem a receipt. -/
theorem Stores.appendEvents (h : Stores s log) {events : List LogEvent} {first last : LogEvent}
    (hfirst : first.seq = log.length) (hlast : last.seq + 1 = log.length + events.length)
    (hnonempty : events ≠ [])
    (hseqs : events.map (·.seq) = List.range' log.length events.length)
    (hreceipts : s.candidateReceipts (log.length - 1) events = []) :
    ∃ s' result, s.appendEvents (appendRequest first last events) = .ok (s', result) ∧
      result.lastEventSequence = last.seq ∧ 1 ≤ result.version ∧
      s'.runtimeHeader = s.runtimeHeader ∧ Stores s' (log ++ events) := by
  have hpos := List.length_pos_of_ne_nil hnonempty
  have hexpected : (appendRequest first last events).expectedSequence = (log.length : ℤ) - 1 := by
    rw [appendRequest, hfirst]
  have hsequence : ((first.seq : ℤ) - 1 + 1).toNat = log.length := by omega
  rw [RemoteSession.appendEvents, h.fresh (by omega)]
  simp only
  rw [if_neg (by rw [h.last, hexpected]; simp),
    if_neg (by rw [hexpected]; exact not_not.mpr hreceipts)]
  refine ⟨_, _, rfl, ?_, Nat.le_add_left 1 _, rfl, ?_⟩
  · simp only [appendRequest]
    omega
  · refine ⟨h.purpose, ?_, ?_, ?_, ?_⟩
    · simp only [appendRequest, hsequence, h.rows]
      rw [mapIdx_eq_numbered, numbered_append, Nat.zero_add]
    · rw [List.map_append, h.seqs, hseqs, List.length_append, List.range_eq_range',
        List.range_eq_range', ← List.range'_append_1, Nat.zero_add]
    · simp only [appendRequest, List.length_append]
      omega
    · intro stored hmem
      rw [List.length_append]
      rcases List.mem_append.mp hmem with hold | hnew
      · exact Nat.lt_add_right _ (h.results stored hold)
      · rw [List.mem_singleton.mp hnew]
        simp only [appendRequest]
        omega

/-- Events are refused when one has to redeem a receipt. -/
theorem Stores.appendEvents_receipts (h : Stores s log) {events : List LogEvent}
    {first last : LogEvent} (hfirst : first.seq = log.length) (hlast : log.length ≤ last.seq)
    (hreceipts : s.candidateReceipts (log.length - 1) events ≠ []) :
    s.appendEvents (appendRequest first last events) = .error .factReceiptInvalid := by
  have hexpected : (appendRequest first last events).expectedSequence = (log.length : ℤ) - 1 := by
    rw [appendRequest, hfirst]
  rw [RemoteSession.appendEvents, h.fresh hlast]
  simp only
  rw [if_neg (by rw [h.last, hexpected]; simp), if_pos (by rw [hexpected]; exact hreceipts)]

/-- The first and the last closer of a log. -/
theorem ends_interruptedTurnClosers (hseqs : log.map (·.seq) = List.range log.length)
    (hnonempty : interruptedTurnClosers log ≠ []) :
    ∃ first last, (interruptedTurnClosers log).head? = some first ∧
      (interruptedTurnClosers log).getLast? = some last ∧ first.seq = log.length ∧
      last.seq + 1 = log.length + (interruptedTurnClosers log).length := by
  have hclosers := map_seq_interruptedTurnClosers hseqs
  obtain ⟨first, hfirst⟩ := Option.isSome_iff_exists.mp (List.isSome_head?.mpr hnonempty)
  obtain ⟨last, hlast⟩ : ∃ last, (interruptedTurnClosers log).getLast? = some last :=
    ⟨_, List.getLast?_eq_some_getLast hnonempty⟩
  have hpos := List.length_pos_of_ne_nil hnonempty
  refine ⟨first, last, hfirst, hlast, ?_, ?_⟩
  · have hmap := congrArg List.head? hclosers
    rw [List.head?_map, hfirst, List.head?_range', if_neg (by omega)] at hmap
    exact Option.some.inj hmap
  · have hmap := congrArg List.getLast? hclosers
    rw [List.getLast?_map, hlast, List.getLast?_range', if_neg (by omega)] at hmap
    have heq : last.seq = log.length + (interruptedTurnClosers log).length - 1 :=
      Option.some.inj hmap
    omega

/-- What the append route answers to the closers of a whole log is what `append` makes of them. -/
theorem Stores.append_eq (h : Stores s log) {first last : LogEvent}
    (hfirst : (interruptedTurnClosers log).head? = some first)
    (hlast : (interruptedTurnClosers log).getLast? = some last) (hseq : first.seq = log.length) :
    s.append (interruptedTurnClosers log)
      = match s.appendRoute (appendRequest first last (interruptedTurnClosers log)) with
        | .error code => .error (.backend code)
        | .ok (s', result) =>
          if result.lastEventSequence ≠ last.seq ∨ result.version < 1 then
            .error .invalidAppendResponse
          else .ok s' := by
  have hcontiguous : isContiguous first.seq (interruptedTurnClosers log) = true := by
    rw [isContiguous, map_seq_interruptedTurnClosers h.seqs, hseq]
    exact beq_self_eq_true _
  rw [append, hfirst, hlast]
  exact if_neg (by rw [hcontiguous]; decide)

/-- The closers of a whole log are appended when they fit into a request. -/
theorem Stores.append_closers (h : Stores s log) (hnonempty : interruptedTurnClosers log ≠ [])
    (hfew : (interruptedTurnClosers log).length ≤ 100)
    (hreceipts : s.candidateReceipts (log.length - 1) (interruptedTurnClosers log) = []) :
    ∃ s', s.append (interruptedTurnClosers log) = .ok s' ∧ s'.runtimeHeader = s.runtimeHeader ∧
      Stores s' (log ++ interruptedTurnClosers log) := by
  obtain ⟨first, last, hfirst, hlast, hfirstSeq, hlastSeq⟩ :=
    ends_interruptedTurnClosers h.seqs hnonempty
  have hpos := List.length_pos_of_ne_nil hnonempty
  obtain ⟨s', result, happend, hresult, hversion, hheader, hstores⟩ :=
    h.appendEvents hfirstSeq hlastSeq hnonempty (map_seq_interruptedTurnClosers h.seqs) hreceipts
  refine ⟨s', ?_, hheader, hstores⟩
  have hroute : s.appendRoute (appendRequest first last (interruptedTurnClosers log))
      = .ok (s', result) := by
    rw [appendRoute, if_neg, happend]
    simp only [appendRequest]
    omega
  rw [h.append_eq hfirst hlast hfirstSeq, hroute]
  simp [hresult]
  omega

/-- Closers that `append` takes fit into a request, and none has to redeem a receipt. -/
theorem Stores.of_append_closers (h : Stores s log) {s' : RemoteSession}
    (hnonempty : interruptedTurnClosers log ≠ [])
    (happend : s.append (interruptedTurnClosers log) = .ok s') :
    (interruptedTurnClosers log).length ≤ 100 ∧
      s.candidateReceipts (log.length - 1) (interruptedTurnClosers log) = [] := by
  obtain ⟨first, last, hfirst, hlast, hfirstSeq, hlastSeq⟩ :=
    ends_interruptedTurnClosers h.seqs hnonempty
  have hpos := List.length_pos_of_ne_nil hnonempty
  rw [h.append_eq hfirst hlast hfirstSeq, appendRoute] at happend
  split_ifs at happend with hshape
  simp only [appendRequest, not_or, not_lt] at hshape
  refine ⟨hshape.2.2, ?_⟩
  by_contra hreceipts
  rw [h.appendEvents_receipts hfirstSeq (by omega) hreceipts] at happend
  simp at happend

/-! ## Loading whole -/

/-- **A session loads whole**: both routes return its log, crash repair completes it with the
closers of that log, and these carry the next free sequence. -/
structure LoadsWhole (s : RemoteSession) (log : List LogEvent) : Prop where
  inspect : s.inspect none s.runtimeHeader.id
    = .ok ⟨s.runtimeHeader, log ++ interruptedTurnClosers log⟩
  readFrom : ∀ fuel > log.length, s.readFrom fuel 0 = some (.ok ⟨s.runtimeHeader, log⟩)
  next : ∀ inspected, s.readInspection s.runtimeHeader.id = .ok inspected →
    ∀ closer ∈ (interruptedTurnClosers inspected.events).head?, closer.seq = log.length
  load : ∃ s', s.load none s.runtimeHeader.id
      = .ok (⟨s.runtimeHeader, log ++ interruptedTurnClosers log⟩, s') ∧
    ∀ fuel > (log ++ interruptedTurnClosers log).length,
      s'.readFrom fuel 0 = some (.ok ⟨s.runtimeHeader, log ++ interruptedTurnClosers log⟩)

/-- The log fits into the page of the open route and its closers into one append, and no closer has
to redeem a receipt. -/
structure Loadable (s : RemoteSession) (log : List LogEvent) : Prop where
  short : log.length ≤ 500
  few : (interruptedTurnClosers log).length ≤ 100
  unreceipted : s.candidateReceipts (log.length - 1) (interruptedTurnClosers log) = []

/-- What the open route leaves out is not loaded. -/
theorem LoadsWhole.short (hwhole : LoadsWhole s log) (h : Stores s log) : log.length ≤ 500 := by
  by_contra hlong
  have hread := h.readInspection
  have hlength : (log.take 500).length = 500 := by
    rw [List.length_take]
    omega
  have hseqs : (log.take 500).map (·.seq) = List.range (log.take 500).length := by
    have hpart := map_seq_drop_take h.seqs 0 500
    rw [List.drop_zero] at hpart
    rw [hpart, List.range_eq_range']
  rcases hclosers : interruptedTurnClosers (log.take 500) with _ | ⟨closer, closers⟩
  · -- Nothing is closed, and the rest of the log is missing.
    have hinspect := hwhole.inspect
    rw [RemoteSession.inspect, hread] at hinspect
    simp only [Except.map, hclosers, List.append_nil, Except.ok.injEq,
      SessionInspection.mk.injEq, true_and] at hinspect
    have hlengths := congrArg List.length hinspect
    rw [hlength, List.length_append] at hlengths
    omega
  · -- The first closer carries a sequence that is taken.
    have hnext := hwhole.next _ hread closer (by simp [hclosers])
    have hmap := map_seq_interruptedTurnClosers hseqs
    rw [hclosers, hlength, List.map_cons, List.length_cons, List.range'_succ] at hmap
    have hseq := (List.cons.inj hmap).1
    omega

theorem Loadable.loadsWhole (hloadable : Loadable s log) (h : Stores s log) :
    LoadsWhole s log := by
  have hread := h.readInspection
  rw [List.take_of_length_le hloadable.short] at hread
  refine ⟨?_, fun fuel hfuel ↦ h.readFrom hfuel, ?_, ?_⟩
  · rw [RemoteSession.inspect, hread]
    rfl
  · intro inspected hinspected closer hcloser
    rw [hread] at hinspected
    obtain rfl := Except.ok.inj hinspected
    have hmap := congrArg List.head? (map_seq_interruptedTurnClosers h.seqs)
    have hpos : (interruptedTurnClosers log).length ≠ 0 := by
      intro hzero
      rw [List.length_eq_zero_iff.mp hzero] at hcloser
      simp at hcloser
    rw [List.head?_map, Option.mem_def.mp hcloser, List.head?_range', if_neg hpos] at hmap
    exact Option.some.inj hmap
  · rw [load, hread]
    simp only [Except.bind]
    by_cases hnone : interruptedTurnClosers log = []
    · refine ⟨s, ?_, fun fuel hfuel ↦ ?_⟩
      · rw [if_pos hnone]
        rfl
      · rw [hnone, List.append_nil] at hfuel ⊢
        exact h.readFrom hfuel
    · obtain ⟨s', happend, hheader, hstores⟩ :=
        h.append_closers hnone hloadable.few hloadable.unreceipted
      refine ⟨s', ?_, fun fuel hfuel ↦ ?_⟩
      · rw [if_neg hnone, happend]
        rfl
      · rw [hstores.readFrom hfuel, hheader]

theorem candidateReceipts_nil (s : RemoteSession) (expectedSequence : ℤ) :
    s.candidateReceipts expectedSequence [] = [] := by
  apply List.filter_eq_nil_iff.mpr
  intro receipt _
  simp

/-- What the append route refuses is not loaded. -/
theorem LoadsWhole.loadable (hwhole : LoadsWhole s log) (h : Stores s log) : Loadable s log := by
  have hshort := hwhole.short h
  have hread := h.readInspection
  rw [List.take_of_length_le hshort] at hread
  by_cases hnone : interruptedTurnClosers log = []
  · refine ⟨hshort, ?_, ?_⟩
    · rw [hnone]
      exact Nat.zero_le _
    · rw [hnone, candidateReceipts_nil]
  · obtain ⟨s', hload, -⟩ := hwhole.load
    rw [RemoteSession.load, hread] at hload
    simp only [Except.bind, if_neg hnone] at hload
    rcases happend : s.append (interruptedTurnClosers log) with fault | s''
    · rw [happend] at hload
      simp [Except.map] at hload
    · obtain ⟨hfew, hreceipts⟩ := h.of_append_closers hnone happend
      exact ⟨hshort, hfew, hreceipts⟩

/-- **Sessions load whole exactly when** the open route returns all of them and the append route
takes their closers. -/
theorem loadsWhole_iff (h : Stores s log) : LoadsWhole s log ↔ Loadable s log :=
  ⟨fun hwhole ↦ hwhole.loadable h, fun hloadable ↦ hloadable.loadsWhole h⟩

/-- A log as the server stores it when no proposal waits for a receipt. -/
def stored (log : List LogEvent) : RemoteSession where
  runtimeHeader := .topLevel "s" .zero
  purpose := .conversation
  rows := numbered 0 log
  lastEventSequence := log.length - 1
  version := 1
  factReceipts := []
  results := []

theorem stores_stored (hseqs : log.map (·.seq) = List.range log.length) :
    Stores (stored log) log :=
  ⟨rfl, rfl, hseqs, rfl, by simp [stored]⟩

/-- A step that is still being streamed. -/
def streamedLog (n : ℕ) : List LogEvent :=
  (List.range n).map fun seq ↦
    { seq := seq
      time := 0
      data := match seq with
        | 0 => .turnStart 1
        | 1 => .stepStart 1 1
        | _ => .assistantChunk 1 1 }

theorem map_seq_streamedLog (n : ℕ) :
    (streamedLog n).map (·.seq) = List.range (streamedLog n).length := by
  rw [streamedLog, List.map_map, List.length_map, List.length_range]
  exact List.map_id _

/-- A turn that was cut off after its third event is closed. -/
theorem loadsWhole_streamed : LoadsWhole (stored (streamedLog 3)) (streamedLog 3) :=
  (loadsWhole_iff (stores_stored (map_seq_streamedLog 3))).mpr ⟨by decide, by decide, rfl⟩

/-- Five hundred and one events are not loaded whole. -/
theorem not_loadsWhole_long :
    ¬ ∀ (s : RemoteSession) (log : List LogEvent), Stores s log → LoadsWhole s log := by
  intro hall
  have hstores := stores_stored (map_seq_streamedLog 501)
  have hshort := (hall _ _ hstores).short hstores
  rw [streamedLog, List.length_map, List.length_range] at hshort
  omega

end RemoteSession

end XxAgent
