import XxAgent.Session.LiveLog
import XxAgent.Session.Repair

/-!
# Forking a live session

A fork seeds a child session with a prefix of the log of a live one. The boundary is a number that a
caller passes, so it need not be the number of an event, and the prefix must not end inside a turn.
The child is made and announced like any other session: its seed is checked, and the relational
checks see its log before it is handed out.
-/

namespace XxAgent

open Ecma

/-! ## Boundaries -/

/-- `String(x)`. -/
def JsNumber.text : JsNumber → JsString
  | finite x => x.text
  | negativeZero => js "0"
  | infinity true => js "-Infinity"
  | infinity false => js "Infinity"
  | nan => js "NaN"

/-- The non-negative safe integer that a number is. -/
def JsNumber.toSeq? : JsNumber → Option ℕ
  | finite (.int n) => if Number.IsSafe n ∧ 0 ≤ n then some n.toNat else none
  | negativeZero => some 0
  | _ => none

/-- Rejection codes for session forking. -/
inductive SessionForkErrorCode where
  | SESSION_NOT_FOUND
  | SESSION_NOT_LIVE
  | SESSION_ALREADY_EXISTS
  | INVALID_BOUNDARY
  | OPEN_TURN
deriving DecidableEq

/-- Why a fork is refused. -/
inductive SessionForkFault where
  | alreadyExists (id : JsString)
  | notFound (id : JsString)
  | notLive (id : JsString)
  | notSeq (id : JsString) (boundary : JsNumber)
  | missing (id : JsString) (boundary : ℕ) (last : Option ℕ)
  | notContiguous (id : JsString) (boundary : ℕ)
  | openTurn (id : JsString) (boundary turn : ℕ)
  /-- The child cannot be made. -/
  | create (fault : CreateFault)

namespace SessionForkFault

/-- The code of a typed rejection. -/
def code : SessionForkFault → Option SessionForkErrorCode
  | alreadyExists _ => some .SESSION_ALREADY_EXISTS
  | notFound _ => some .SESSION_NOT_FOUND
  | notLive _ => some .SESSION_NOT_LIVE
  | notSeq .. | missing .. | notContiguous .. => some .INVALID_BOUNDARY
  | openTurn .. => some .OPEN_TURN
  | create _ => none

/-- The message of a rejection. -/
def message : SessionForkFault → Option JsString
  | alreadyExists id => some (js "session \"" ++ id ++ js "\" already exists")
  | notFound id => some (js "session \"" ++ id ++ js "\" not found")
  | notLive id => some (js "session \"" ++ id ++ js "\" is not the live store instance")
  | notSeq id boundary => some (js "fork boundary for session \"" ++ id ++
      js "\" must be a non-negative safe integer, got " ++ boundary.text)
  | missing id boundary last => some (js s!"fork boundary {boundary}" ++
      js " does not exist in session \"" ++ id ++ js "\" (last seq: " ++ js ((last.map toString).getD "none") ++ js ")")
  | notContiguous id boundary => some (js s!"fork boundary {boundary}" ++
      js " does not match a contiguous event seq in session \"" ++ id ++ js "\"")
  | openTurn id boundary turn => some (js s!"fork boundary {boundary} in session \"" ++ id ++
      js s!"\" ends inside open turn {turn}")
  | create fault => fault.message

end SessionForkFault

/-- Whether an event opens or ends a turn. -/
def LogEvent.isTurnBoundary (e : LogEvent) : Bool :=
  match e.data with
  | .turnStart _ | .turnEnd .. => true
  | _ => false

/-- The turn that an event opens. -/
def LogEvent.startedTurn (e : LogEvent) : Option ℕ :=
  match e.data with
  | .turnStart turn => some turn
  | _ => none

/-- `events.findLast(event => event.type === 'turn/start' || event.type === 'turn/end')`. -/
def lastTurnBoundary (events : List LogEvent) : Option LogEvent :=
  events.reverse.find? LogEvent.isTurnBoundary

namespace Session

/-- The prefix through a boundary. -/
def seedThrough (s : Session) (requested : JsNumber) :
    Except SessionForkFault (List StoredEvent) :=
  let id := s.header.id
  match requested.toSeq? with
  | none => .error (.notSeq id requested)
  | some boundary =>
    match s.events[boundary]? with
    | none => .error (.missing id boundary (s.events.getLast?.map fun last ↦ last.event.seq))
    | some boundaryEvent =>
      if boundaryEvent.event.seq ≠ boundary then .error (.notContiguous id boundary)
      else
        let seed := s.events.take (boundary + 1)
        match (lastTurnBoundary (typed seed)).bind LogEvent.startedTurn with
        | some turn => .error (.openTurn id boundary turn)
        | none => .ok seed

/-- `_forkSeed`; without a boundary, the last event is it. -/
def forkSeed (s : Session) (requestedBoundary : Option JsNumber) :
    Except SessionForkFault (List StoredEvent) :=
  match requestedBoundary, s.events.getLast? with
  | some boundary, _ => s.seedThrough boundary
  | none, some lastEvent => s.seedThrough (.finite (.int lastEvent.event.seq))
  | none, none => .ok []

end Session

/-! ## The store -/

/-- A live session object. -/
structure LiveEntry where
  ref : ℕ
  session : Session

/-- The sessions of a store, in creation order. -/
structure LiveSessions where
  entries : List LiveEntry
  counter : ℕ
  /-- The reference of the next session object. -/
  next : ℕ

/-- A fork source: either the live session object or its live store id. -/
inductive SessionForkSource where
  | id (id : JsString)
  | session (ref : ℕ) (id : JsString)

/-- The ids that a store mints. -/
def mintedId (n : ℕ) : JsString := js "session-" ++ js (toString n)

theorem mintedId_injective : Function.Injective mintedId := fun _ _ h ↦
  toString_injective (js_inj.mp (List.append_cancel_left h))

namespace LiveSessions

/-- Look up a live session. -/
def get (st : LiveSessions) (id : JsString) : Option LiveEntry :=
  st.entries.find? fun entry ↦ entry.session.header.id = id

theorem exists_unused (st : LiveSessions) : ∃ n, st.counter < n ∧ st.get (mintedId n) = none := by
  have hinjective : Function.Injective fun n ↦ mintedId (st.counter + 1 + n) :=
    mintedId_injective.comp (add_right_injective _)
  obtain ⟨-, ⟨n, rfl⟩, hn⟩ := (Set.infinite_range_of_injective hinjective).exists_notMem_finset
    (st.entries.map fun entry ↦ entry.session.header.id).toFinset
  refine ⟨st.counter + 1 + n, by omega, ?_⟩
  rw [get, List.find?_eq_none]
  intro entry hentry hid
  refine hn (List.mem_toFinset.mpr (List.mem_map.mpr ⟨entry, hentry, ?_⟩))
  exact of_decide_eq_true hid

/-- The counter behind the first minted id that is unused. -/
def mint (st : LiveSessions) : ℕ := Nat.find st.exists_unused

/-- Create a session from a seed, and announce it to the relational checks. -/
def create (st : LiveSessions) (id : Option JsString) (seed : List StoredEvent)
    (cwd parentSession : Option JsString) (seedLength : Option ℕ) (createdAt now : SafeNat) :
    LiveSessions × Except CreateFault Session :=
  let counter := if id.isNone then st.mint else st.counter
  let sessionId := id.getD (mintedId counter)
  let header : HeaderDraft := {
    id := sessionId, createdAt := createdAt, cwd := cwd
    parentSession := parentSession, seedLength := seedLength }
  let prepared := { st with counter := counter }
  if (st.get sessionId).isSome then (prepared, .error (.alreadyExists sessionId))
  else
    match Session.create (some seed) header now with
    | .error fault => (prepared, .error fault)
    | .ok session =>
      -- A creation listener that throws rolls the attachment back.
      match seedSession (typed session.events) with
      | .error fault => (prepared, .error (.vetoed fault))
      | .ok _ =>
        ({ prepared with entries := st.entries ++ [⟨st.next, session⟩], next := st.next + 1 },
          .ok session)

/-- `_resolveForkSource`. -/
def resolveForkSource (st : LiveSessions) : SessionForkSource → Except SessionForkFault Session
  | .id id =>
    match st.get id with
    | none => .error (.notFound id)
    | some live => .ok live.session
  | .session ref id =>
    match st.get id with
    | none => .error (.notFound id)
    | some live => if live.ref ≠ ref then .error (.notLive id) else .ok live.session

/-- Create a live child session from a stable prefix of a live source. -/
def fork (st : LiveSessions) (source : SessionForkSource) (boundary : Option JsNumber)
    (childSessionId : Option JsString) (createdAt now : SafeNat) :
    LiveSessions × Except SessionForkFault Session :=
  match childSessionId.bind fun id ↦ (st.get id).map fun _ ↦ id with
  | some taken => (st, .error (.alreadyExists taken))
  | none =>
    match st.resolveForkSource source with
    | .error fault => (st, .error fault)
    | .ok liveSource =>
      match liveSource.forkSeed boundary with
      | .error fault => (st, .error fault)
      | .ok seed =>
        let (next, created) := st.create childSessionId seed liveSource.header.cwd
          (some liveSource.header.id) (some seed.length) createdAt now
        (next, created.mapError .create)

end LiveSessions

/-!
## What a fork accepts, and what it makes

The source is any live session whose log the relational checks accept. Its prefixes are sound logs,
so the load boundary asks nothing of them but the shapes of messages and request headers; and a
prefix that the fork takes has no open turn, so the child needs no repair.
-/

/-! ## Turns -/

theorem lastTurnBoundary_concat (log : List LogEvent) (e : LogEvent) :
    lastTurnBoundary (log ++ [e]) = if e.isTurnBoundary then some e else lastTurnBoundary log := by
  rw [lastTurnBoundary, List.reverse_concat, List.find?_cons]
  cases e.isTurnBoundary <;> rfl

/-- The turn of the last boundary is the one that the repair would close. -/
theorem lastTurnBoundary_eq (log : List LogEvent) :
    (lastTurnBoundary log).bind LogEvent.startedTurn = (scanEvents log).openTurn := by
  induction log using List.reverseRecOn with
  | nil => rfl
  | append_singleton log e ih =>
    rw [lastTurnBoundary_concat, scanEvents_concat, scanEvent, LogEvent.isTurnBoundary]
    cases hdata : e.data with
    | turnStart turn => simp [LogEvent.startedTurn, hdata]
    | turnEnd turn reason => simp [LogEvent.startedTurn, hdata]
    | toolCall turn step callId =>
      simp only [Bool.false_eq_true, if_false, ih]
      split <;> rfl
    | _ => simpa using ih

/-- The relational checks accept the log, and no turn is open behind it. -/
def BetweenTurns (log : List LogEvent) : Prop :=
  ∃ trace, seedSession log = .ok trace ∧ trace.openTurn = none

theorem betweenTurns_iff {log : List LogEvent} {trace : SessionTrace}
    (h : seedSession log = .ok trace) :
    BetweenTurns log ↔ (lastTurnBoundary log).bind LogEvent.startedTurn = none := by
  rw [lastTurnBoundary_eq, (accounts_of_seedSession h).agrees.turn]
  constructor
  · rintro ⟨trace', h', hopen⟩
    rw [h] at h'
    rwa [Except.ok.inj h']
  · exact fun hopen ↦ ⟨trace, h, hopen⟩

theorem exists_seedSession_take {log : List LogEvent} {trace : SessionTrace}
    (h : seedSession log = .ok trace) (n : ℕ) : ∃ trace, seedSession (log.take n) = .ok trace := by
  rw [← log.take_append_drop n, seedSession] at h
  exact Replay.exists_replay_of_append h

/-- The relational checks accept the marker behind a log that they accept. -/
theorem BetweenTurns.endSeed {log : List LogEvent} (h : BetweenTurns log)
    (hseq : ∀ last, log.getLast? = some last → last.seq < log.length) {e : LogEvent}
    (he : e.seq = log.length) (hdata : e.data = .endSeed) : BetweenTurns (log ++ [e]) := by
  obtain ⟨trace, haccepted, hopen⟩ := h
  have haccounts := accounts_of_seedSession haccepted
  have hlast : trace.lastSeq < (e.seq : ℤ) := by
    rcases log.eq_nil_or_concat with rfl | ⟨init, last, rfl⟩
    · rw [← Except.ok.inj haccepted]
      exact (neg_one_lt_zero : (-1 : ℤ) < 0).trans_le (Int.natCast_nonneg _)
    · rw [List.concat_eq_append] at haccounts hseq he
      have hgetLast : (init ++ [last]).getLast? = some last := List.getLast?_concat
      rw [haccounts.lastSeq last hgetLast, he]
      exact_mod_cast hseq last hgetLast
  have hvalidate : validateEvent trace e = .ok (trace.idle e) := by
    rw [validateEvent, if_neg (not_le.mpr hlast), validateData, hdata]
  exact ⟨_, (haccounts.concat hvalidate).accepted, hopen⟩

theorem BetweenTurns.closers {log : List LogEvent} (h : BetweenTurns log) :
    interruptedTurnClosers log = [] := by
  obtain ⟨trace, haccepted, hopen⟩ := h
  exact interruptedTurnClosers_of_closed
    ((accounts_of_seedSession haccepted).agrees.turn.trans hopen)

/-! ## Prefixes -/

/-- The prefix of a log that a boundary selects: through an existing seq, or all of it. -/
inductive Selects (events : List StoredEvent) : Option JsNumber → ℕ → Prop
  | omitted : Selects events none events.length
  | seq {e : StoredEvent} (he : e ∈ events) :
      Selects events (some (.finite (.int e.event.seq))) (e.event.seq + 1)
  /-- The zero with a sign is the zero without. -/
  | negativeZero {e : StoredEvent} (he : e ∈ events) (hseq : e.event.seq = 0) :
      Selects events (some .negativeZero) 1

namespace Session

variable {s : Session} {seed : List StoredEvent}

theorem seedThrough_eq_ok {requested : JsNumber}
    (hsurface : ∃ state, surfaceAfter (stored s.events) = .ok state) :
    s.seedThrough requested = .ok seed ↔ ∃ k, requested.toSeq? = some k ∧ k < s.events.length ∧
      (lastTurnBoundary (typed (s.events.take (k + 1)))).bind LogEvent.startedTurn = none ∧
      seed = s.events.take (k + 1) := by
  rw [seedThrough]
  cases hseq : requested.toSeq? with
  | none => simp
  | some k =>
    simp only [Option.some.injEq, exists_eq_left']
    cases hget : s.events[k]? with
    | none =>
      have hlength : ¬ k < s.events.length := not_lt.mpr (List.getElem?_eq_none_iff.mp hget)
      simp [hlength]
    | some e =>
      have hlt : k < s.events.length := (List.getElem?_eq_some_iff.mp hget).1
      simp only [seq_of_getElem? hsurface hget, ne_eq, not_true_eq_false, if_false]
      cases hopen : (lastTurnBoundary (typed (s.events.take (k + 1)))).bind
          LogEvent.startedTurn with
      | some turn => simp
      | none => simp [hlt, eq_comm]

/-- A seq below the length of a log is the one that a boundary is. -/
theorem toSeq?_seq {n length : ℕ} (hlt : n < length) (hlength : Number.IsSafe length) :
    JsNumber.toSeq? (.finite (.int n)) = some n := by
  have hsafe : Number.IsSafe n :=
    ⟨(neg_nonpos.mpr (by decide +kernel)).trans (Int.natCast_nonneg _),
      le_trans (by exact_mod_cast hlt.le) hlength.2⟩
  rw [JsNumber.toSeq?, if_pos ⟨hsafe, Int.natCast_nonneg n⟩, Int.toNat_natCast]

theorem toSeq?_eq_some {x : JsNumber} {n : ℕ} (h : x.toSeq? = some n) :
    x = .finite (.int n) ∨ x = .negativeZero ∧ n = 0 := by
  rw [JsNumber.toSeq?.eq_def] at h
  split at h
  · split_ifs at h with hint
    rw [← Option.some.inj h, Int.toNat_of_nonneg hint.2]
    exact .inl rfl
  · exact .inr ⟨rfl, (Option.some.inj h).symm⟩
  · cases h

theorem selects_through {requested : JsNumber}
    (hsurface : ∃ state, surfaceAfter (stored s.events) = .ok state)
    (hlength : Number.IsSafe s.events.length) {n : ℕ} :
    Selects s.events (some requested) n ↔
      ∃ k, requested.toSeq? = some k ∧ k < s.events.length ∧ n = k + 1 := by
  constructor
  · intro h
    cases h with
    | @seq e he =>
      have hlt := seq_lt_length hsurface he
      exact ⟨e.event.seq, toSeq?_seq hlt hlength, hlt, rfl⟩
    | negativeZero he hseq => exact ⟨0, rfl, hseq ▸ seq_lt_length hsurface he, rfl⟩
  · rintro ⟨k, hk, hlt, rfl⟩
    have hget : s.events[k]? = some s.events[k] := List.getElem?_eq_getElem hlt
    have hseq := seq_of_getElem? hsurface hget
    have hmem := List.mem_of_getElem? hget
    rcases toSeq?_eq_some hk with rfl | ⟨rfl, rfl⟩
    · have hselects := Selects.seq hmem
      rwa [hseq] at hselects
    · exact .negativeZero hmem hseq

/-- **The seed of a fork** is a prefix that the boundary selects and that ends between turns. -/
theorem forkSeed_eq_ok {boundary : Option JsNumber} {trace : SessionTrace}
    (hsurface : ∃ state, surfaceAfter (stored s.events) = .ok state)
    (hlength : Number.IsSafe s.events.length)
    (haccepted : seedSession (typed s.events) = .ok trace) :
    s.forkSeed boundary = .ok seed ↔ ∃ n, Selects s.events boundary n ∧
      BetweenTurns (typed (s.events.take n)) ∧ seed = s.events.take n := by
  have hturns : ∀ n, BetweenTurns (typed (s.events.take n)) ↔
      (lastTurnBoundary (typed (s.events.take n))).bind LogEvent.startedTurn = none := by
    intro n
    obtain ⟨trace, htake⟩ := exists_seedSession_take haccepted n
    rw [typed, ← List.map_take] at htake
    exact betweenTurns_iff htake
  have hthrough : ∀ requested : JsNumber, s.seedThrough requested = .ok seed ↔
      ∃ n, Selects s.events (some requested) n ∧ BetweenTurns (typed (s.events.take n)) ∧
        seed = s.events.take n := by
    intro requested
    rw [seedThrough_eq_ok hsurface]
    constructor
    · rintro ⟨k, hk, hlt, hopen, rfl⟩
      exact ⟨k + 1, (selects_through hsurface hlength).mpr ⟨k, hk, hlt, rfl⟩,
        (hturns _).mpr hopen, rfl⟩
    · rintro ⟨n, hselects, hopen, rfl⟩
      obtain ⟨k, hk, hlt, rfl⟩ := (selects_through hsurface hlength).mp hselects
      exact ⟨k, hk, hlt, (hturns _).mp hopen, rfl⟩
  rw [forkSeed.eq_def]
  rcases boundary with _ | requested
  · have homitted : (∃ n, Selects s.events none n ∧ BetweenTurns (typed (s.events.take n)) ∧
        seed = s.events.take n) ↔ BetweenTurns (typed s.events) ∧ seed = s.events := by
      constructor
      · rintro ⟨n, hselects, h⟩
        cases hselects
        rwa [List.take_length] at h
      · intro h
        exact ⟨_, .omitted, by rwa [List.take_length]⟩
    rw [homitted]
    cases hlast : s.events.getLast? with
    | none =>
      rw [List.getLast?_eq_none_iff.mp hlast, Except.ok.injEq, eq_comm]
      exact (and_iff_right ⟨freshTrace, rfl, rfl⟩).symm
    | some last =>
      have hget : s.events[s.events.length - 1]? = some last := by
        rw [← List.getLast?_eq_getElem?, hlast]
      have hlt := (List.getElem?_eq_some_iff.mp hget).1
      have hsucc : s.events.length - 1 + 1 = s.events.length := by omega
      simp only
      rw [seq_of_getElem? hsurface hget, seedThrough_eq_ok hsurface]
      have hall := hturns s.events.length
      rw [List.take_length] at hall
      rw [hall]
      constructor
      · rintro ⟨k, hk, -, hopen, rfl⟩
        rw [toSeq?_seq hlt hlength, Option.some.injEq] at hk
        rw [← hk, hsucc, List.take_length] at hopen ⊢
        exact ⟨hopen, rfl⟩
      · rintro ⟨hopen, rfl⟩
        refine ⟨_, toSeq?_seq hlt hlength, hlt, ?_⟩
        rw [hsucc, List.take_length]
        exact ⟨hopen, rfl⟩
  · exact hthrough requested

end Session

/-- A boundary selects one prefix. -/
theorem Selects.unique {events : List StoredEvent} {boundary : Option JsNumber} {m n : ℕ}
    (h : Selects events boundary m) (h' : Selects events boundary n) : m = n := by
  cases h with
  | omitted =>
    cases h'
    rfl
  | seq he =>
    generalize hx : some (JsNumber.finite (.int _)) = x at h'
    cases h' with
    | omitted => cases hx
    | seq he' => simpa using hx
    | negativeZero => cases hx
  | negativeZero he hseq =>
    cases h'
    rfl

theorem Selects.le_length {events : List StoredEvent} {boundary : Option JsNumber} {n : ℕ}
    (hsurface : ∃ state, surfaceAfter (stored events) = .ok state) (h : Selects events boundary n) :
    n ≤ events.length := by
  cases h with
  | omitted => exact le_rfl
  | seq he => exact seq_lt_length hsurface he
  | negativeZero he hseq => exact (Nat.zero_le _).trans_lt (seq_lt_length hsurface he)

/-! ## Children -/

/-- A child of a session, forked behind its first `n` events. -/
structure ForkOf (source child : Session) (n : ℕ) : Prop where
  /-- A prefix that ends in the marker is the log. -/
  unmarked : endsInEndSeed (source.events.take n) = true → child.events = source.events.take n
  /-- Any other prefix is followed by one marker. -/
  marked : endsInEndSeed (source.events.take n) = false → ∃ marker : StoredEvent,
    marker.event.data = .endSeed ∧ child.events = source.events.take n ++ [marker]
  closers : interruptedTurnClosers (typed child.events) = []
  messages : child.derivedMessages = source.derivedMessagesAt n
  seedLength : child.header.seedLength.map SafeNat.val = some n
  parent : child.header.parentSession = some source.header.id
  live : child.Live

/-- The relational checks accept what a session makes of a seed that ends between turns. -/
theorem BetweenTurns.seeded {seed : List StoredEvent} (h : BetweenTurns (typed seed))
    (hsurface : ∃ state, surfaceAfter (stored seed) = .ok state) (now : SafeNat) :
    BetweenTurns (typed (seeded now seed)) := by
  rw [XxAgent.seeded]
  split_ifs
  · exact h
  · rw [typed_append]
    refine h.endSeed (fun last hlast ↦ ?_) (length_typed seed).symm rfl
    obtain ⟨e, he, rfl⟩ := List.mem_map.mp (List.mem_of_getLast? hlast)
    rw [length_typed]
    exact seq_lt_length hsurface he

/-- A seeded session derives to what the log derives to at the prefix that it is seeded with. -/
theorem derivedMessages_seeded {s : Session} {n : ℕ} (h : Sound s.events) (header : SessionHeader)
    (now : SafeNat) (firstLiveSeq : ℕ) :
    (⟨header, seeded now (s.events.take n), firstLiveSeq⟩ : Session).derivedMessages
      = s.derivedMessagesAt n := by
  obtain ⟨state, hstate⟩ := (h.take n).surface
  have hseeded : surfaceAfter (stored (seeded now (s.events.take n))) = .ok state := by
    rw [seeded]
    split_ifs
    · exact hstate
    · exact surfaceAfter_endSeed now hstate
  have hprefix : s.events.take n <+: seeded now (s.events.take n) := by
    rw [seeded]
    split_ifs
    · exact List.prefix_refl _
    · exact List.prefix_append _ _
  rw [Session.derivedMessages, Session.derivedMessagesAt, Session.derivedMessagesAt,
    List.take_length, hseeded, hstate]
  refine nodeMessages_congr fun seq hseq ↦ ?_
  have hlt : seq < (stored (s.events.take n)).length := below_surfaceAfter hstate seq hseq
  have hread : ∀ log : List StoredEvent, s.events.take n <+: log →
      (stored log)[seq]? = (stored (s.events.take n))[seq]? := by
    rintro log ⟨rest, rfl⟩
    rw [stored_append, List.getElem?_append_left hlt]
  rw [hread _ hprefix, hread _ (List.take_prefix n s.events)]

namespace LiveSessions

variable {st : LiveSessions}

/-- The id of a session that is made is unused. -/
theorem get_prepared {id : Option JsString}
    (hfree : ∀ taken, id = some taken → st.get taken = none) :
    st.get (id.getD (mintedId (if id.isNone then st.mint else st.counter))) = none := by
  cases id with
  | none => exact (Nat.find_spec st.exists_unused).2
  | some taken => exact hfree taken rfl

/-- The store makes a session of a prefix exactly if its payloads have their shapes. -/
theorem exists_create {id : Option JsString} {seed : List StoredEvent}
    (hfree : ∀ taken, id = some taken → st.get taken = none) (hseed : Sound seed)
    (hturns : BetweenTurns (typed seed)) (hsafe : Number.IsSafe seed.length)
    (cwd parentSession : Option JsString) (createdAt now : SafeNat) :
    ∃ header : SessionHeader, header.seedLength = some ⟨seed.length, hsafe⟩ ∧
      header.parentSession = parentSession ∧
      (∀ child, (st.create id seed cwd parentSession (some seed.length) createdAt now).2
        = .ok child ↔ (∀ e ∈ seed, assertCurrentLlmShape e.json = .ok ()) ∧
          child = ⟨header, seeded now seed, seed.length⟩) ∧
      ((∀ e ∈ seed, assertCurrentLlmShape e.json = .ok ()) →
        Session.Live ⟨header, seeded now seed, seed.length⟩) := by
  let draft : HeaderDraft := {
    id := id.getD (mintedId (if id.isNone then st.mint else st.counter))
    createdAt := createdAt, cwd := cwd, parentSession := parentSession
    seedLength := some seed.length }
  have hvalid : ∃ header : SessionHeader, validateSessionHeader draft = .ok header ∧
      header.seedLength = some ⟨seed.length, hsafe⟩ ∧ header.parentSession = parentSession := by
    rw [validateSessionHeader]
    simp only [draft, dif_pos hsafe]
    exact ⟨_, rfl, rfl, rfl⟩
  obtain ⟨header, hheader, hseedLength, hparent⟩ := hvalid
  obtain ⟨trace, htrace, -⟩ := hturns.seeded hseed.surface now
  have hsession : ∀ child, Session.create (some seed) draft now = .ok child ↔
      (∀ e ∈ seed, assertCurrentLlmShape e.json = .ok ()) ∧
        child = ⟨header, seeded now seed, seed.length⟩ := by
    intro child
    rw [Session.create_eq_ok hseed.surface, hseed.pushSeed_iff hsafe]
    simp only [true_and, hheader, Except.ok.injEq, exists_eq_left']
  refine ⟨header, hseedLength, hparent, fun child ↦ ?_, fun hshapes ↦ ?_⟩
  · rw [← hsession child, create]
    simp only [get_prepared hfree, Option.isSome_none, Bool.false_eq_true, if_false]
    cases hcreate : Session.create (some seed) draft now with
    | error fault => simp
    | ok session =>
      obtain ⟨-, rfl⟩ := (hsession session).mp hcreate
      simp only [htrace]
  · exact .create ((hsession _).mpr ⟨hshapes, rfl⟩)

/-- **Fork boundary soundness.** A fork of a live session whose log the relational checks accept
succeeds exactly if the boundary is an existing seq or omitted, the prefix through it has no open
turn, and its messages and request headers have the shapes that a seed must have. The child's log is
the prefix and the marker; it needs no repair and derives to the messages of the source there. -/
theorem fork_boundary {source : SessionForkSource} {session : Session}
    (hresolve : st.resolveForkSource source = .ok session) (hlive : session.Live)
    (hlength : session.events.length < 2 ^ 32) {trace : SessionTrace}
    (haccepted : seedSession (typed session.events) = .ok trace)
    {childSessionId : Option JsString}
    (hfree : ∀ id, childSessionId = some id → st.get id = none)
    (boundary : Option JsNumber) (createdAt now : SafeNat) :
    ((∃ child, (st.fork source boundary childSessionId createdAt now).2 = .ok child) ↔
      ∃ n, Selects session.events boundary n ∧ BetweenTurns (typed (session.events.take n)) ∧
        ∀ e ∈ session.events.take n, assertCurrentLlmShape e.json = .ok ()) ∧
    ∀ child, (st.fork source boundary childSessionId createdAt now).2 = .ok child →
      ∀ n, Selects session.events boundary n → ForkOf session child n := by
  have hsound := hlive.sound
  have hsafe : ∀ n : ℕ, n ≤ session.events.length → Number.IsSafe n := by
    intro n hn
    refine ⟨(neg_nonpos.mpr (by decide +kernel)).trans (Int.natCast_nonneg _), ?_⟩
    rw [Number.maxSafe]
    omega
  have hfork : ∀ child, (st.fork source boundary childSessionId createdAt now).2 = .ok child ↔
      ∃ seed, session.forkSeed boundary = .ok seed ∧
        (st.create childSessionId seed session.header.cwd (some session.header.id)
          (some seed.length) createdAt now).2 = .ok child := by
    intro child
    have hnew : (childSessionId.bind fun id ↦ (st.get id).map fun _ ↦ id) = none := by
      rw [Option.bind_eq_none_iff]
      intro id hid
      rw [hfree id hid]
      rfl
    rw [fork, hnew, hresolve]
    cases hseed : session.forkSeed boundary with
    | error fault => simp [hseed]
    | ok seed => simp [hseed, mapError_eq_ok]
  have hspec := fun n : ℕ ↦ fun hturns : BetweenTurns (typed (session.events.take n)) ↦
    exists_create hfree (hsound.take n) hturns
      (hsafe _ (List.length_take_le' n _)) session.header.cwd
      (some session.header.id) createdAt now
  have hseeds := fun seed ↦ @Session.forkSeed_eq_ok session seed boundary trace hsound.surface
    (hsafe _ le_rfl) haccepted
  refine ⟨⟨?_, ?_⟩, fun child hchild n hselects ↦ ?_⟩
  · rintro ⟨child, hchild⟩
    obtain ⟨seed, hseed, hcreate⟩ := (hfork child).mp hchild
    obtain ⟨n, hselects, hturns, rfl⟩ := (hseeds seed).mp hseed
    obtain ⟨header, -, -, hiff, -⟩ := hspec n hturns
    exact ⟨n, hselects, hturns, ((hiff child).mp hcreate).1⟩
  · rintro ⟨n, hselects, hturns, hshapes⟩
    obtain ⟨header, -, -, hiff, -⟩ := hspec n hturns
    exact ⟨_, (hfork _).mpr ⟨_, (hseeds _).mpr ⟨n, hselects, hturns, rfl⟩,
      (hiff _).mpr ⟨hshapes, rfl⟩⟩⟩
  · obtain ⟨seed, hseed, hcreate⟩ := (hfork child).mp hchild
    obtain ⟨m, hselects', hturns, rfl⟩ := (hseeds seed).mp hseed
    obtain rfl : m = n := hselects'.unique hselects
    obtain ⟨header, hseedLength, hparent, hiff, hlives⟩ := hspec m hturns
    obtain ⟨hshapes, rfl⟩ := (hiff child).mp hcreate
    have hle : m ≤ session.events.length := hselects.le_length hsound.surface
    refine ⟨fun hmarked ↦ ?_, fun hmarked ↦ ⟨endSeedEvent now (session.events.take m), rfl, ?_⟩,
      (hturns.seeded (hsound.take m).surface now).closers,
      derivedMessages_seeded hsound header now _, ?_, hparent, hlives hshapes⟩
    · exact if_pos hmarked
    · exact if_neg (by simp [hmarked])
    · rw [hseedLength]
      exact congrArg some (List.length_take_of_le hle)

end LiveSessions

/-! ## Two logs -/

/-- The session that some drafts make, when each of them is accepted. -/
def sessionOf (drafts : List EventDraft) : Session :=
  ⟨.topLevel "s" .zero, drafts.zipIdx.map fun p ↦ p.1.event p.2, 0⟩

/-- The store that it lives in. -/
def storeOf (drafts : List EventDraft) : LiveSessions := ⟨[⟨0, sessionOf drafts⟩], 0, 1⟩

theorem eq_ok_of_isOk {χ : Type*} {x : Except χ Unit} (h : x.isOk = true) : x = .ok () := by
  rcases x with fault | u
  · cases h
  · rfl

theorem live_nil : (sessionOf []).Live :=
  @Session.Live.create none { id := js "s", createdAt := .zero } .zero _ rfl

theorem live_concat {before : List EventDraft} {draft : EventDraft} (h : (sessionOf before).Live)
    (hlegacy : (assertSupportedRequestHeader (some (.str draft.data.type))
      (some draft.payload)).isOk = true)
    (hnext : (validateNext (sessionOf before).events (draft.event before.length)).isOk = true) :
    (sessionOf (before ++ [draft])).Live := by
  have hlength : (sessionOf before).events.length = before.length := by simp [sessionOf]
  refine .append h (Session.append_eq_ok.mpr ⟨eq_ok_of_isOk hlegacy, ?_, ?_⟩)
  · rw [hlength]
    exact eq_ok_of_isOk hnext
  · rw [hlength]
    simp [sessionOf, List.zipIdx_append]

/-- A turn, from its start to its end. -/
def closedTurn : List EventDraft := [
  { data := .turnStart 1, payload := .obj [prop "turn" (integer 1)], time := .zero },
  { data := .turnEnd 1 (.loop (js "completed")), payload := .obj [prop "turn" (integer 1),
      prop "reason" (.obj [prop "kind" (text "completed")])], time := .zero }]

theorem fork_boundary_closedTurn : ∃ child,
    ((storeOf closedTurn).fork (.id (js "s")) (some (.finite (.int 1))) (some (js "c")) .zero
      .zero).2 = .ok child ∧ ForkOf (sessionOf closedTurn) child 2 := by
  have hlive : (sessionOf closedTurn).Live :=
    live_concat (live_concat live_nil (by decide +kernel) (by decide +kernel)) (by decide +kernel)
      (by decide +kernel)
  have haccepted : ∃ trace, seedSession (typed (sessionOf closedTurn).events) = .ok trace ∧
      trace.openTurn = none := ⟨_, rfl, rfl⟩
  obtain ⟨trace, htrace, hopen⟩ := haccepted
  have hresolve : (storeOf closedTurn).resolveForkSource (.id (js "s"))
      = .ok (sessionOf closedTurn) := rfl
  have hfree : ∀ id, some (js "c") = some id → (storeOf closedTurn).get id = none := by
    rintro _ ⟨⟩
    rfl
  obtain ⟨hiff, hof⟩ := LiveSessions.fork_boundary hresolve hlive (by decide +kernel) htrace hfree
    (some (.finite (.int 1))) .zero .zero
  have hselects : Selects (sessionOf closedTurn).events (some (.finite (.int 1))) 2 :=
    @Selects.seq _ (closedTurn[1].event 1) (by simp [sessionOf, closedTurn])
  have hshapes : ∀ e ∈ (sessionOf closedTurn).events.take 2,
      assertCurrentLlmShape e.json = .ok () := by
    have hall : ((sessionOf closedTurn).events.all
        fun e ↦ (assertCurrentLlmShape e.json).isOk) = true := by decide +kernel
    exact fun e he ↦ eq_ok_of_isOk (List.all_eq_true.mp hall e (List.mem_of_mem_take he))
  obtain ⟨child, hchild⟩ := hiff.mpr ⟨2, hselects, ⟨trace, htrace, hopen⟩, hshapes⟩
  exact ⟨child, hchild, hof child hchild 2 hselects⟩

/-- A message of the user whose id is empty. -/
def unidentified : EventDraft where
  data := .userMessage
  payload := .obj [prop "id" (text ""), prop "role" (text "user"),
    prop "source" (.obj [prop "kind" (text "user")]), prop "content" (.arr [])]
  time := .zero
  surfaceOp := some (text "append")

/-- A live session that the relational checks accept, between turns, cannot be forked. -/
theorem not_forked_unidentified :
    (sessionOf [unidentified]).Live ∧
      (storeOf [unidentified]).resolveForkSource (.id (js "s")) = .ok (sessionOf [unidentified]) ∧
      Selects (sessionOf [unidentified]).events none 1 ∧
      BetweenTurns (typed ((sessionOf [unidentified]).events.take 1)) ∧
      ¬ ∃ child, ((storeOf [unidentified]).fork (.id (js "s")) none (some (js "c")) .zero
        .zero).2 = .ok child := by
  refine ⟨live_concat live_nil (by decide +kernel) (by decide +kernel), rfl, .omitted,
    ⟨_, rfl, rfl⟩, ?_⟩
  rintro ⟨child, hchild⟩
  have hfails : ((storeOf [unidentified]).fork (.id (js "s")) none (some (js "c")) .zero
      .zero).2.isOk = false := by decide +kernel
  rw [hchild] at hfails
  cases hfails

end XxAgent
