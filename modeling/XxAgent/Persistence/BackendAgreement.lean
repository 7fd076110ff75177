import XxAgent.Jsonl.LineScan
import XxAgent.Sqlite.RowScan

/-!
# The backends recover the same prefix

One log, stored twice: as rows of a table and as lines of a file. Both scans are `recoverPrefix` of
the cells they read, and the cells of one record are the same value up to key order.
-/

namespace XxAgent

open Ecma Framing Jsonl Sqlite

/-- A record of a log that both backends hold. -/
inductive StoredRecord where
  /-- A payload that parses neither as a row nor as a line. -/
  | unparsable (row : EventRow) (line : List UInt8) (hrow : rowToEvent row = none)
      (hline : decodeLine line = none) (hlf : lfByte ∉ line)
  /-- An event. -/
  | event (event : SessionEvent) (h : Storable event)

namespace StoredRecord

/-- The row of a record. -/
def row : StoredRecord → EventRow
  | unparsable row _ _ _ _ => row
  | event e _ => insertEvent e

/-- The line of a record, without its newline. -/
def line : StoredRecord → List UInt8
  | unparsable _ line _ _ _ => line
  | event e _ => recordLine e.json

theorem singleRecord_line (record : StoredRecord) : SingleRecord record.line := by
  cases record with
  | unparsable row line hrow hline hlf => exact ⟨hlf, .inl hline⟩
  | event e h => exact singleRecord_json e

/-- Both forms of a record hold the same cell. -/
theorem rel_cell (record : StoredRecord) :
    Option.Rel SameObject (rowToEvent record.row) (cellOf record.line) := by
  cases record with
  | unparsable r l hrow hline hlf =>
    have hcell : cellOf l = none := by
      rw [cellOf, hline]
      rfl
    rw [row, line, hrow, hcell]
    exact .none
  | event e h =>
    rw [row, line, rowToEvent_insertEvent h, cellOf_json]
    have hnd : (Json.obj e.columns).NodupKeys :=
      ((e.perm_columns h.envelope).map Prod.fst).nodup_iff.mp e.wf.nodup
    exact .some ⟨e.sameValue_columns h.envelope, hnd⟩

end StoredRecord

/-- The rows of a log. -/
def logRows (records : List StoredRecord) : List EventRow := records.map StoredRecord.row

/-- The file of a log. -/
def logFile (header : SessionHeader) (records : List StoredRecord) : List UInt8 :=
  headerRecord header ++ frame lfByte (records.map StoredRecord.line)

private theorem forall₂_cells (records : List StoredRecord) :
    List.Forall₂ (Option.Rel SameObject) (cellsOf (logRows records))
      ((records.map StoredRecord.line).map cellOf) := by
  rw [cellsOf, logRows, List.map_map, List.map_map, List.forall₂_map_left_iff,
    List.forall₂_map_right_iff, List.forall₂_same]
  exact fun record _ ↦ record.rel_cell

/-- **The two backends recover the same prefix.** Whatever mix of holes, gaps and completed turns a
log holds, either both scans reject it as corrupt, or both accept it with the same events. -/
theorem scanRows_agrees_scanLog (header : SessionHeader) (records : List StoredRecord) :
    (∃ e e', scanRows (logRows records) 0 = .error e ∧
        scanLog (logFile header records) = .error e' ∧ e'.IsCorrupt) ∨
      ∃ rows lines, scanRows (logRows records) 0 = .ok rows ∧
        scanLog (logFile header records) = .ok lines ∧
        List.Forall₂ Json.SameValue rows.preserved lines.events := by
  have hsingle : ∀ line ∈ records.map StoredRecord.line, SingleRecord line := by
    intro line hline
    obtain ⟨record, -, rfl⟩ := List.mem_map.mp hline
    exact record.singleRecord_line
  have hrows := scanRows_toOption (logRows records) 0
  have hrel := recoverPrefix_rel (forall₂_cells records) 0
  rw [← hrows] at hrel
  rcases scanLog_lines header hsingle with ⟨e', hl, hcorrupt, hnone⟩ | ⟨lines, hl, hsome⟩
  · left
    rw [hnone] at hrel
    cases hr : scanRows (logRows records) 0 with
    | error e => exact ⟨e, e', rfl, hl, hcorrupt⟩
    | ok rows =>
      rw [hr] at hrel
      cases hrel
  · right
    rw [hsome] at hrel
    cases hr : scanRows (logRows records) 0 with
    | error e =>
      rw [hr] at hrel
      cases hrel
    | ok rows =>
      rw [hr] at hrel
      cases hrel with
      | some hsame => exact ⟨rows, lines, rfl, hl, hsame.imp fun x y hxy ↦ hxy.1⟩

end XxAgent
