import XxAgent.Session.Envelope

/-!
# Event rows

The SQLite backend stores an event as one row, its envelope in columns and its payload as JSON text.
Reading rows back is a two-pass scan: parse every row, find the last `turn/end` that parses, then
keep the contiguous prefix. A row before that boundary which does not parse or does not continue the
log is corruption; after it, it is the tail of a crash.
-/

namespace XxAgent.Sqlite

open Ecma

/-- A row of the events table. -/
structure EventRow where
  /-- `seq`. -/
  seq : ℤ
  /-- `type`. -/
  type : JsString
  /-- `time`. -/
  time : ℤ
  /-- `data`, as JSON text. -/
  data : JsString
  /-- `source_event_seqs`, as JSON text, or null. -/
  sourceEventSeqs : Option JsString
  /-- `surface_op`, as JSON text, or null. -/
  surfaceOp : Option JsString
  /-- `ignorable`: one exactly if the event carries the marker. -/
  ignorable : Option ℤ

/-- `value ? … : …`. -/
def truthy : Value → Bool
  | none => false
  | some .null => false
  | some (.bool b) => b
  | some (.num x) => decide (x ≠ .int 0)
  | some (.str s) => !s.isEmpty
  | some (.arr _) => true
  | some (.obj _) => true

/-- The three optional columns of an event. -/
def envelopeBindings (event : SessionEvent) : Option JsString × Option JsString × Option ℤ :=
  (if truthy (event.get "sourceEventSeqs") then
      some (stringify (event.get "sourceEventSeqs").toJson)
    else none,
    (event.get "surfaceOp").map stringify,
    if event.get "ignorable" = some (.bool true) then some 1 else none)

/-- The string a value is; empty where it is none. -/
def textColumn : Value → JsString
  | some (.str s) => s
  | _ => []

/-- Text as a column keeps it: bound as UTF-8. -/
def sqlText (s : JsString) : JsString := decodeUtf8 (encodeUtf8 s)

/-- The row an event is inserted as. -/
def insertEvent (event : SessionEvent) : EventRow :=
  let (surfaceSeqs, surfaceOp, ignorable) := envelopeBindings event
  { seq := (event.get "seq").toInt
    type := sqlText (textColumn (event.get "type"))
    time := (event.get "time").toInt
    data := sqlText (stringify (event.get "data").toJson)
    sourceEventSeqs := surfaceSeqs.map sqlText
    surfaceOp := surfaceOp.map sqlText
    ignorable := ignorable }

/-- Parse a column that may be null: `none` is a syntax error. -/
def parseColumn : Option JsString → Option Value
  | none => some none
  | some s => (parse s).map some

/-- Reconstruct an event from its row; `none` when a JSON column fails to parse. -/
def rowToEvent (row : EventRow) : Option Json :=
  match parseColumn row.sourceEventSeqs with
  | none => none
  | some sourceEventSeqs =>
    match parseColumn row.surfaceOp with
    | none => none
    | some surfaceOp =>
      match parse row.data with
      | none => none
      | some data =>
        some (.obj (definedFields [
          ("type", some (.str row.type)),
          ("seq", some (integer row.seq)),
          ("time", some (integer row.time)),
          ("data", some data),
          ("sourceEventSeqs", sourceEventSeqs),
          ("surfaceOp", surfaceOp),
          ("ignorable", if row.ignorable = some 1 then some (.bool true) else none)]))

/-- A log that cannot be read. -/
inductive RowsError where
  /-- A row before a completed turn does not parse. -/
  | unparsable (seq : ℤ)
  /-- A row before a completed turn does not continue the log. -/
  | seqGap (expected : ℕ) (got : ℤ)
deriving DecidableEq

/-- The message of an error. -/
def RowsError.message : RowsError → JsString
  | unparsable seq => js "corrupt session log: unparsable committed event at seq " ++
      (Number.int seq).text
  | seqGap expected got => js "corrupt session log: seq gap in committed region (expected " ++
      natText expected ++ js ", got " ++ (Number.int got).text ++ js ")"

/-- Whether a row is a valid `turn/end`. -/
def isTurnEndRow (row : EventRow) : Bool :=
  (rowToEvent row).isSome && decide (row.type = js "turn/end")

/-- The last index that is a valid `turn/end`, or `-1`: the rows from index `i` on. -/
def lastTurnEndFrom : ℕ → List EventRow → ℤ
  | _, [] => -1
  | i, row :: rest =>
    if lastTurnEndFrom (i + 1) rest ≠ -1 then lastTurnEndFrom (i + 1) rest
    else if isTurnEndRow row then i
    else -1

/-- The second pass, from index `i` on. -/
def preserveFrom (base : ℕ) (lastTurnEnd : ℤ) : ℕ → List EventRow → Except RowsError (List Json)
  | _, [] => .ok []
  | i, row :: rest =>
    match rowToEvent row with
    | none => if (i : ℤ) ≤ lastTurnEnd then .error (.unparsable row.seq) else .ok []
    | some event =>
      if row.seq ≠ (base + i : ℕ) then
        if (i : ℤ) ≤ lastTurnEnd then .error (.seqGap (base + i) row.seq) else .ok []
      else
        match preserveFrom base lastTurnEnd (i + 1) rest with
        | .error e => .error e
        | .ok preserved => .ok (event :: preserved)

/-- What a scan of rows finds. -/
structure RowScan where
  /-- The preserved prefix. -/
  preserved : List Json
  /-- Where a torn tail starts, if there is one. -/
  tornFrom : Option ℕ

/-- Find the preserved prefix of ordered event rows; the first row is expected to carry `base`. -/
def scanRows (rows : List EventRow) (base : ℕ) : Except RowsError RowScan :=
  match preserveFrom base (lastTurnEndFrom 0 rows) 0 rows with
  | .error e => .error e
  | .ok preserved =>
    .ok ⟨preserved,
      if preserved.length < rows.length then some (base + preserved.length) else none⟩

/-!
## Scanning rows is recovering a prefix

The second pass compares an index with the last `turn/end`; that is the question whether something
from this index on commits (`le_lastTurnEndFrom_iff`), and with it the loop is `recoverPrefix`.
-/

/-- The cells of a table: a row that does not parse is a hole. -/
def cellsOf (rows : List EventRow) : List (Option Json) := rows.map rowToEvent

theorem rowToEvent_get {row : EventRow} {event : Json} (h : rowToEvent row = some event) :
    event.get? "seq" = some (integer row.seq) ∧ event.get? "type" = some (.str row.type) := by
  rw [rowToEvent] at h
  cases hs : parseColumn row.sourceEventSeqs with
  | none => simp [hs] at h
  | some sourceEventSeqs =>
    cases ho : parseColumn row.surfaceOp with
    | none => simp [hs, ho] at h
    | some surfaceOp =>
      cases hd : parse row.data with
      | none => simp [hs, ho, hd] at h
      | some data =>
        simp only [hs, ho, hd] at h
        obtain rfl := Option.some.inj h
        exact ⟨fieldOf_definedFields (by simp) (by simp), fieldOf_definedFields (by simp) (by simp)⟩

private theorem isTurnEndRow_eq (row : EventRow) (cells : List (Option Json)) :
    PrefixScan.commits isTurnEnd (rowToEvent row :: cells)
      = (isTurnEndRow row || PrefixScan.commits isTurnEnd cells) := by
  cases he : rowToEvent row with
  | none => simp [isTurnEndRow, he]
  | some event =>
    have htype := (rowToEvent_get he).2
    rw [PrefixScan.commits_cons_some, isTurnEnd, htype, isTurnEndRow, he]
    simp [text]

private theorem lastTurnEndFrom_ge (rows : List EventRow) (i : ℕ) :
    lastTurnEndFrom i rows = -1 ∨ (i : ℤ) ≤ lastTurnEndFrom i rows := by
  induction rows generalizing i with
  | nil => exact Or.inl rfl
  | cons row rows ih =>
    rw [lastTurnEndFrom]
    split_ifs with h1 h2
    · rcases ih (i + 1) with h | h
      · exact absurd h h1
      · exact Or.inr (by push_cast at h; omega)
    · exact Or.inr (le_refl _)
    · exact Or.inl rfl

/-- Whether index `i + k` is before the last `turn/end`: something from there on commits. -/
theorem le_lastTurnEndFrom_iff (rows : List EventRow) (i k : ℕ) :
    ((i + k : ℕ) : ℤ) ≤ lastTurnEndFrom i rows
      ↔ PrefixScan.commits isTurnEnd ((cellsOf rows).drop k) = true := by
  induction rows generalizing i k with
  | nil => simp [cellsOf, lastTurnEndFrom]; omega
  | cons row rows ih =>
    have hrest := fun k ↦ ih (i + 1) k
    have hge := lastTurnEndFrom_ge rows (i + 1)
    rw [cellsOf, List.map_cons, lastTurnEndFrom]
    cases k with
    | zero =>
      have hzero := hrest 0
      rw [List.drop_zero] at hzero ⊢
      rw [isTurnEndRow_eq, Bool.or_eq_true, ← cellsOf, ← hzero]
      split_ifs with h1 h2
      · rcases hge with h | h
        · exact absurd h h1
        · constructor
          · intro _
            exact Or.inr (by push_cast at h ⊢; omega)
          · intro _
            push_cast at h ⊢
            omega
      · simp [h2]
      · rw [not_not] at h1
        simp [h1, h2]
        omega
    | succ k =>
      have hk := hrest k
      rw [List.drop_succ_cons, ← cellsOf, ← hk]
      split_ifs with h1 h2
      · rw [show i + (k + 1) = i + 1 + k from by ring]
      · rw [not_not] at h1
        rw [h1]
        constructor <;> intro h <;> push_cast at h <;> omega
      · rw [not_not] at h1
        rw [h1]
        constructor <;> intro h <;> push_cast at h <;> omega

/-- The second pass, given what the comparison with the last `turn/end` means. -/
private theorem preserveFrom_eq (base : ℕ) (lastTurnEnd : ℤ) (rows : List EventRow) :
    ∀ i : ℕ, (∀ k, ((i + k : ℕ) : ℤ) ≤ lastTurnEnd
        ↔ PrefixScan.commits isTurnEnd ((cellsOf rows).drop k) = true) →
      (preserveFrom base lastTurnEnd i rows).toOption = recoverPrefix (base + i) (cellsOf rows) := by
  induction rows with
  | nil => intros; rfl
  | cons row rows ih =>
    intro i hlast
    have hrest := ih (i + 1) fun k ↦ by
      have hk := hlast (k + 1)
      rw [cellsOf, List.map_cons, List.drop_succ_cons] at hk
      rw [show i + 1 + k = i + (k + 1) from by ring]
      exact hk
    have hhere := hlast 0
    rw [List.drop_zero, Nat.add_zero] at hhere
    have hcells : cellsOf (row :: rows) = rowToEvent row :: cellsOf rows := rfl
    rw [hcells] at hhere ⊢
    rw [preserveFrom]
    cases he : rowToEvent row with
    | none =>
      rw [he, PrefixScan.commits_cons_none] at hhere
      rw [recoverPrefix, PrefixScan.scan_cons_none]
      dsimp only
      by_cases hc : (i : ℤ) ≤ lastTurnEnd
      · rw [if_pos hc, if_pos (hhere.mp hc)]
        rfl
      · rw [if_neg hc, if_neg fun h ↦ hc (hhere.mpr h)]
        rfl
    | some event =>
      have hseq := (rowToEvent_get he).1
      rw [he, PrefixScan.commits_cons_some] at hhere
      dsimp only
      by_cases hgap : row.seq = (base + i : ℕ)
      · have hok : continuesAt (base + i) event = true := by
          rw [continuesAt, hseq, hgap]
          exact decide_eq_true rfl
        rw [if_neg (not_not.mpr hgap), recoverPrefix, PrefixScan.scan_cons_of_ok _ _ hok,
          ← recoverPrefix, show base + i + 1 = base + (i + 1) from by ring, ← hrest]
        cases preserveFrom base lastTurnEnd (i + 1) rows <;> rfl
      · have hnot : continuesAt (base + i) event = false := by
          rw [continuesAt, hseq, decide_eq_false_iff_not]
          intro hc
          exact hgap (integer_inj.mp (Option.some.inj hc))
        rw [if_pos hgap, recoverPrefix, PrefixScan.scan_cons_of_not _ _ hnot]
        by_cases hc : (i : ℤ) ≤ lastTurnEnd
        · rw [if_pos hc, if_pos (hhere.mp hc)]
          rfl
        · rw [if_neg hc, if_neg fun h ↦ hc (hhere.mpr h)]
          rfl

/-- **The two-pass scan of rows recovers the prefix.** -/
theorem scanRows_toOption (rows : List EventRow) (base : ℕ) :
    (scanRows rows base).toOption.map RowScan.preserved = recoverPrefix base (cellsOf rows) := by
  have hpass := preserveFrom_eq base (lastTurnEndFrom 0 rows) rows 0
    (le_lastTurnEndFrom_iff rows 0)
  rw [Nat.add_zero] at hpass
  rw [← hpass, scanRows]
  cases preserveFrom base (lastTurnEndFrom 0 rows) 0 rows <;> rfl

/-! ## A stored event -/

private theorem sqlText_stringify (x : Json) : sqlText (stringify x) = stringify x :=
  decodeUtf8_encodeUtf8 (lineText_stringify x).wellFormed

/-- An event a row can hold: its type is text, and source references are an array. -/
structure Storable (event : SessionEvent) : Prop where
  envelope : event.Envelope
  type_wellFormed : ∀ s, event.get "type" = some (.str s) → WellFormed s
  sources : event.get "sourceEventSeqs" = none ∨ ∃ xs, event.get "sourceEventSeqs" = some (.arr xs)

/-- **A row reads back as the event's columns.** -/
theorem rowToEvent_insertEvent {event : SessionEvent} (h : Storable event) :
    rowToEvent (insertEvent event) = some (.obj event.columns) := by
  obtain ⟨type, htype⟩ := h.envelope.type
  obtain ⟨seq, hseq, -⟩ := h.envelope.seq
  obtain ⟨time, htime, -⟩ := h.envelope.time
  obtain ⟨data, hdata⟩ := h.envelope.data
  have hparse (k : String) (x : Json) (hx : event.get k = some x) :
      parse (sqlText (stringify x)) = some x := by
    rw [sqlText_stringify, parse_stringify (event.json_wf.of_get? hx)]
  have hsources : parseColumn ((envelopeBindings event).1.map sqlText)
      = some (event.get "sourceEventSeqs") := by
    rcases h.sources with hnone | ⟨xs, hxs⟩
    · rw [envelopeBindings, hnone]
      rfl
    · rw [envelopeBindings, hxs]
      simp [truthy, parseColumn, hparse "sourceEventSeqs" _ hxs]
  have hop : parseColumn ((envelopeBindings event).2.1.map sqlText)
      = some (event.get "surfaceOp") := by
    cases hx : event.get "surfaceOp" with
    | none => simp [envelopeBindings, hx, parseColumn]
    | some x => simp [envelopeBindings, hx, parseColumn, hparse "surfaceOp" x hx]
  have hign : (if (envelopeBindings event).2.2 = some 1 then some (.bool true) else none)
      = event.get "ignorable" := by
    rcases h.envelope.ignorable with hx | hx <;> simp [envelopeBindings, hx]
  have htext : sqlText (textColumn (event.get "type")) = type := by
    rw [htype]
    exact decodeUtf8_encodeUtf8 (h.type_wellFormed type htype)
  rw [rowToEvent, insertEvent]
  dsimp only
  rw [hsources, hop, hdata]
  dsimp only
  rw [Value.toJson_some, hparse "data" data hdata, hign, htext, hseq, htime]
  dsimp only
  rw [SessionEvent.columns, SessionEvent.columnFields, htype, hseq, htime, hdata]
  rfl

end XxAgent.Sqlite
