import XxAgent.Jsonl.Recovery

/-!
# The scanner as an object

`SessionLogScanner` says what a write returns. The object behind it keeps its fields where a write
throws, counts the bytes of its fragments, and goes through a chunk by searching newlines. What it
has made of its input does not depend on the chunks (`writeAll_eq`).
-/

namespace XxAgent.Jsonl

open Ecma Framing LineFeed

/-! ## The object -/

/-- What a scanner has made of the complete lines. -/
structure ScannedLines where
  events : List Json := []
  committedBytes : ℕ
  eventLine : ℕ := 0
  issue : Option LogError := none
deriving DecidableEq

/-- The fields of a scanner; its fragments are copies, since a chunk may be a reused buffer. -/
structure ScannerObject extends ScannedLines where
  fragments : List (List UInt8) := []
  fragmentBytes : ℕ := 0
  inputBytes : ℕ
deriving DecidableEq

/-- `Buffer.concat(list, totalLength)` cuts, or fills with zeros. -/
def bufferConcat (list : List (List UInt8)) (totalLength : ℕ) : List UInt8 :=
  list.flatten.take totalLength ++ List.replicate (totalLength - list.flatten.length) 0

/-- How the pushing of decoded events ends. -/
inductive PushEnd where
  | done
  | gap (expected : ℕ) (got : Value)
  | raises
deriving DecidableEq

/-- Push decoded events while they continue the log. -/
def pushEvents : List Json → List Json → List Json × PushEnd
  | events, [] => (events, .done)
  | events, event :: rest =>
    if event = .null then (events, .raises)
    else if event.get? "seq" ≠ some (integer events.length) then
      (events, .gap events.length (event.get? "seq"))
    else pushEvents (events ++ [event]) rest

/-- The issue is thrown if a completed turn follows it. -/
def throwIfTurnEnd (issue : LogError) (decoded : List Json) : Option LogError :=
  match someTurnEnd decoded with
  | .error e => some e
  | .ok true => some issue
  | .ok false => none

/-- Decode one complete event row and update the contiguous prefix. -/
def ScannedLines.consumeEventLine (s : ScannedLines) (line : List UInt8) (endByte : ℕ) :
    ScannedLines × Option LogError :=
  let s := { s with eventLine := s.eventLine + 1 }
  match decodeLine line with
  | none => ({ s with issue := some (s.issue.getD (.unparsable s.eventLine)) }, none)
  | some decoded =>
    match s.issue with
    | some issue => (s, throwIfTurnEnd issue decoded)
    | none =>
      let rowStart := s.events.length
      match pushEvents s.events decoded with
      | (events, .done) => ({ s with events := events, committedBytes := endByte }, none)
      | (events, .raises) => ({ s with events := events }, some .nullProperty)
      | (events, .gap expected got) =>
        let issue := .seqGap s.eventLine expected got
        ({ s with events := events.take rowStart, issue := some issue },
          throwIfTurnEnd issue decoded)

namespace ScannerObject

def create (headerRecord : List UInt8) : Except LogError ScannerObject :=
  match parseHeaderRecord headerRecord with
  | .error e => .error e
  | .ok _ => .ok
    { committedBytes := headerRecord.length, inputBytes := headerRecord.length }

/-- The line that a fragment ends, with the fragments that were carried to it. -/
def takeLine (s : ScannerObject) (fragment : List UInt8) : List UInt8 × ScannerObject :=
  if s.fragments = [] then (fragment, s)
  else (bufferConcat (if fragment = [] then s.fragments else s.fragments ++ [fragment])
    (s.fragmentBytes + fragment.length), { s with fragments := [], fragmentBytes := 0 })

/-- Consume the lines of a chunk, the first of which starts at an offset, and carry what follows. -/
def writeLines (s : ScannerObject) (lineStart : ℕ) (rest : List UInt8) :
    List (List UInt8) → ScannerObject × Option LogError
  | [] =>
    (if rest = [] then s
    else { s with
      fragments := s.fragments ++ [rest], fragmentBytes := s.fragmentBytes + rest.length }, none)
  | fragment :: fragments =>
    let (line, s) := s.takeLine fragment
    match s.toScannedLines.consumeEventLine line (lineStart + fragment.length + 1) with
    | (lines, some e) => ({ s with toScannedLines := lines }, some e)
    | (lines, none) => writeLines { s with toScannedLines := lines }
        (lineStart + fragment.length + 1) rest fragments

/-- Consume the next chunk. -/
def write (s : ScannerObject) (chunk : List UInt8) : ScannerObject × Option LogError :=
  let (fragments, rest) := splitRecords lfByte chunk
  writeLines { s with inputBytes := s.inputBytes + chunk.length } s.inputBytes rest fragments

/-- Consume chunks until one throws. -/
def writeAll (s : ScannerObject) : List (List UInt8) → ScannerObject × Option LogError
  | [] => (s, none)
  | chunk :: chunks =>
    match s.write chunk with
    | (s, some e) => (s, some e)
    | (s, none) => writeAll s chunks

/-- The chunks that are supplied: the last one is the one that throws. -/
def supplied (s : ScannerObject) : List (List UInt8) → List (List UInt8)
  | [] => []
  | chunk :: chunks =>
    match s.write chunk with
    | (_, some _) => [chunk]
    | (s, none) => chunk :: supplied s chunks

structure Checkpoint where
  inputBytes : ℕ
  committedBytes : ℕ
  eventCount : ℕ

def checkpoint (s : ScannerObject) : Checkpoint := ⟨s.inputBytes, s.committedBytes, s.events.length⟩

/-! ## Chunks -/

/-- The fragments are counted. -/
def Counted (s : ScannerObject) : Prop := s.fragmentBytes = s.fragments.flatten.length

/-- What a write leaves, and how it ends. -/
def seen (result : ScannerObject × Option LogError) :
    (ScannedLines × List UInt8) × Option LogError :=
  ((result.1.toScannedLines, result.1.fragments.flatten), result.2)

theorem bufferConcat_flatten (list : List (List UInt8)) :
    bufferConcat list list.flatten.length = list.flatten := by
  rw [bufferConcat, List.take_length, Nat.sub_self, List.replicate_zero, List.append_nil]

/-- A line is what was carried, and the fragment that ends it. -/
theorem takeLine_eq {s : ScannerObject} (h : s.Counted) (fragment : List UInt8) :
    s.takeLine fragment
      = (s.fragments.flatten ++ fragment, { s with fragments := [], fragmentBytes := 0 }) := by
  rw [takeLine]
  rw [Counted] at h
  split_ifs with hnone hempty
  · rw [hnone, List.flatten_nil, List.length_nil] at h
    rw [hnone, List.flatten_nil, List.nil_append, ← h, ← hnone]
  · rw [hempty, List.length_nil, Nat.add_zero, h, bufferConcat_flatten, List.append_nil]
  · have hlength : s.fragmentBytes + fragment.length
        = (s.fragments ++ [fragment]).flatten.length := by
      rw [List.flatten_append, List.length_append, h, List.flatten_singleton]
    rw [hlength, bufferConcat_flatten, List.flatten_append, List.flatten_singleton]

theorem writeLines_eq {s : ScannerObject} (h : s.Counted) (lineStart : ℕ)
    {fragments : List (List UInt8)} (hfragments : ∀ fragment ∈ fragments, lfByte ∉ fragment)
    {rest : List UInt8} (hrest : lfByte ∉ rest) :
    seen (s.writeLines lineStart rest fragments)
        = feed lfByte ScannedLines.consumeEventLine s.toScannedLines s.fragments.flatten lineStart
          (frame lfByte fragments ++ rest) ∧
      (s.writeLines lineStart rest fragments).1.Counted ∧
      (s.writeLines lineStart rest fragments).1.inputBytes = s.inputBytes := by
  induction fragments generalizing s lineStart with
  | nil =>
    rw [frame_nil, List.nil_append, feed_of_not_mem _ _ hrest, writeLines]
    rw [Counted] at h
    split_ifs with hempty
    · exact ⟨by rw [seen, hempty, List.append_nil], h, rfl⟩
    · refine ⟨by rw [seen, List.flatten_append, List.flatten_singleton], ?_, rfl⟩
      rw [Counted, List.flatten_append, List.length_append, List.flatten_singleton, ← h]
  | cons fragment fragments ih =>
    rw [List.forall_mem_cons] at hfragments
    rw [frame_cons, List.append_assoc, List.cons_append, feed_record _ _ hfragments.1, writeLines,
      takeLine_eq h]
    dsimp only
    rcases hconsume : s.toScannedLines.consumeEventLine (s.fragments.flatten ++ fragment)
        (lineStart + fragment.length + 1) with ⟨lines, _ | e⟩
    · have hcounted : Counted
          { s with toScannedLines := lines, fragments := [], fragmentBytes := 0 } := rfl
      exact ih hcounted _ hfragments.2
    · exact ⟨rfl, rfl, rfl⟩

theorem write_eq {s : ScannerObject} (h : s.Counted) (chunk : List UInt8) :
    seen (s.write chunk) = feed lfByte ScannedLines.consumeEventLine s.toScannedLines
        s.fragments.flatten s.inputBytes chunk ∧
      (s.write chunk).1.Counted ∧ (s.write chunk).1.inputBytes = s.inputBytes + chunk.length := by
  obtain ⟨hfragments, hrest⟩ := sep_not_mem_splitRecords lfByte chunk
  have hcounted : Counted { s with inputBytes := s.inputBytes + chunk.length } := h
  have hlines := writeLines_eq hcounted s.inputBytes hfragments hrest
  rw [frame_splitRecords] at hlines
  exact hlines

/-- **What a scanner makes of its input does not depend on the chunks.** -/
theorem writeAll_eq {s : ScannerObject} (h : s.Counted) (chunks : List (List UInt8)) :
    seen (s.writeAll chunks) = feed lfByte ScannedLines.consumeEventLine s.toScannedLines
        s.fragments.flatten s.inputBytes chunks.flatten ∧
      (s.writeAll chunks).1.inputBytes = s.inputBytes + (s.supplied chunks).flatten.length := by
  induction chunks generalizing s with
  | nil => exact ⟨rfl, rfl⟩
  | cons chunk chunks ih =>
    obtain ⟨hseen, hcounted, hinput⟩ := write_eq h chunk
    rw [List.flatten_cons, feed_append, ← hseen, writeAll, supplied]
    rcases hwrite : s.write chunk with ⟨t, _ | e⟩
    · rw [hwrite] at hcounted hinput
      obtain ⟨hrest, hlength⟩ := ih hcounted
      refine ⟨hrest.trans (by rw [hinput]; rfl), ?_⟩
      dsimp only at hlength ⊢
      rw [hlength, hinput, List.flatten_cons, List.length_append, Nat.add_assoc]
    · rw [hwrite] at hinput
      exact ⟨rfl, by simpa using hinput⟩

/-- **Chunks do not matter.** Whatever the chunks of a log are, a scanner finds the events, the
committed offset and the error that it finds in one piece, and it has counted what it was given. -/
theorem scanner_chunks (headerRecord : List UInt8) :
    match create headerRecord with
    | .error _ => True
    | .ok s => ∀ chunks : List (List UInt8),
      (s.writeAll chunks).1.events = (s.write chunks.flatten).1.events ∧
      (s.writeAll chunks).1.committedBytes = (s.write chunks.flatten).1.committedBytes ∧
      (s.writeAll chunks).2 = (s.write chunks.flatten).2 ∧
      (s.writeAll chunks).1.checkpoint.inputBytes
        = headerRecord.length + (s.supplied chunks).flatten.length := by
  rw [create]
  cases parseHeaderRecord headerRecord with
  | error e => trivial
  | ok header =>
    intro chunks
    set s : ScannerObject :=
      { committedBytes := headerRecord.length, inputBytes := headerRecord.length } with hs
    have hcounted : s.Counted := rfl
    obtain ⟨hall, hlength⟩ := writeAll_eq hcounted chunks
    have hsame : seen (s.writeAll chunks) = seen (s.write chunks.flatten) :=
      hall.trans (write_eq hcounted chunks.flatten).1.symm
    have hlines : (s.writeAll chunks).1.toScannedLines
        = (s.write chunks.flatten).1.toScannedLines :=
      congrArg (fun result ↦ result.1.1) hsame
    have herror : (seen (s.writeAll chunks)).2 = (seen (s.write chunks.flatten)).2 :=
      congrArg Prod.snd hsame
    exact ⟨congrArg ScannedLines.events hlines, congrArg ScannedLines.committedBytes hlines, herror,
      hlength⟩

/-! ## What a write returns -/

/-- The scanner that an object is, with its header. -/
def toScanner (header : Json) (s : ScannerObject) : SessionLogScanner :=
  ⟨header, s.events, s.fragments, s.inputBytes, s.committedBytes, s.eventLine, s.issue⟩

/-- What a write returns. -/
def returned (header : Json) : ScannerObject × Option LogError → Except LogError SessionLogScanner
  | (_, some e) => .error e
  | (s, none) => .ok (s.toScanner header)

theorem pushDecoded_eq (events decoded : List Json) :
    pushDecoded events decoded = match pushEvents events decoded with
      | (events, .done) => .ok (.inl events)
      | (_, .raises) => .error .nullProperty
      | (_, .gap expected got) => .ok (.inr (expected, got)) := by
  induction decoded generalizing events with
  | nil => rfl
  | cons event rest ih =>
    rw [pushDecoded, pushEvents]
    split_ifs
    · rfl
    · rfl
    · exact ih _

/-- Pushing appends. -/
theorem prefix_pushEvents (events decoded : List Json) :
    events <+: (pushEvents events decoded).1 := by
  induction decoded generalizing events with
  | nil => exact List.prefix_refl _
  | cons event rest ih =>
    rw [pushEvents]
    split_ifs
    · exact List.prefix_refl _
    · exact List.prefix_refl _
    · exact (List.prefix_append _ _).trans (ih _)

theorem returned_consumeEventLine (header : Json) (s : ScannerObject) (line : List UInt8)
    (endByte : ℕ) :
    (s.toScanner header).consumeEventLine line endByte =
      returned header ({ s with
        toScannedLines := (s.toScannedLines.consumeEventLine line endByte).1 },
        (s.toScannedLines.consumeEventLine line endByte).2) := by
  rw [SessionLogScanner.consumeEventLine, ScannedLines.consumeEventLine]
  cases decodeLine line with
  | none => rfl
  | some decoded =>
    dsimp only [toScanner]
    cases hissue : s.issue with
    | some issue =>
      dsimp only
      rw [SessionLogScanner.raiseIfTurnEnd, throwIfTurnEnd]
      rcases someTurnEnd decoded with e | _ | _ <;> rfl
    | none =>
      dsimp only
      rw [pushDecoded_eq]
      have hprefix := prefix_pushEvents s.events decoded
      rcases hpush : pushEvents s.events decoded with ⟨events, _ | ⟨expected, got⟩ | _⟩
      · rfl
      · rw [hpush] at hprefix
        dsimp only at hprefix ⊢
        rw [SessionLogScanner.raiseIfTurnEnd, throwIfTurnEnd, ← List.prefix_iff_eq_take.mp hprefix]
        rcases someTurnEnd decoded with e | _ | _ <;> rfl
      · rfl

theorem returned_writeLines (header : Json) {s : ScannerObject} (h : s.Counted) (lineStart : ℕ)
    {fragments : List (List UInt8)} (hfragments : ∀ fragment ∈ fragments, lfByte ∉ fragment)
    {rest : List UInt8} (hrest : lfByte ∉ rest) :
    (s.toScanner header).writeFrom [] lineStart (frame lfByte fragments ++ rest)
      = returned header (s.writeLines lineStart rest fragments) := by
  induction fragments generalizing s lineStart with
  | nil =>
    have hline := SessionLogScanner.writeFrom_line (s.toScanner header) lineStart [] rest [] hrest
    rw [List.append_nil, List.nil_append] at hline
    rw [frame_nil, List.nil_append, hline, SessionLogScanner.writeFrom, writeLines]
    split_ifs
    · rfl
    · rfl
  | cons fragment fragments ih =>
    rw [List.forall_mem_cons] at hfragments
    have hcarried := returned_consumeEventLine header { s with fragments := [], fragmentBytes := 0 }
      (s.fragments.flatten ++ fragment) (lineStart + fragment.length + 1)
    rw [frame_cons, List.append_assoc, List.cons_append,
      SessionLogScanner.writeFrom_line _ _ _ _ _ hfragments.1, List.nil_append,
      SessionLogScanner.writeFrom, if_pos rfl, writeLines, takeLine_eq h]
    dsimp only [toScanner] at hcarried ⊢
    rw [hcarried]
    rcases s.toScannedLines.consumeEventLine (s.fragments.flatten ++ fragment)
        (lineStart + fragment.length + 1) with ⟨lines, _ | e⟩
    · have hcounted : Counted
          { s with toScannedLines := lines, fragments := [], fragmentBytes := 0 } := rfl
      exact ih hcounted _ hfragments.2
    · rfl

/-- **A write of the object returns what a write of the scanner is.** -/
theorem returned_write (header : Json) {s : ScannerObject} (h : s.Counted) (chunk : List UInt8) :
    (s.toScanner header).write chunk = returned header (s.write chunk) := by
  obtain ⟨hfragments, hrest⟩ := sep_not_mem_splitRecords lfByte chunk
  have hcounted : Counted { s with inputBytes := s.inputBytes + chunk.length } := h
  have hlines := returned_writeLines header hcounted s.inputBytes hfragments hrest
  rw [frame_splitRecords] at hlines
  exact hlines

/-- The scan of a file whose chunks are written one by one. -/
def scanChunks (headerRecord : List UInt8) (chunks : List (List UInt8)) :
    Except LogError SessionLogScan :=
  match parseHeaderRecord headerRecord, create headerRecord with
  | .ok header, .ok s => (returned header (s.writeAll chunks)).map SessionLogScanner.finish
  | .error e, _ | _, .error e => .error e

/-- What a scan returns is seen of the object. -/
theorem finish_returned (header : Json) {result other : ScannerObject × Option LogError}
    (h : seen result = seen other) :
    (returned header result).map SessionLogScanner.finish
      = (returned header other).map SessionLogScanner.finish := by
  obtain ⟨s, error⟩ := result
  obtain ⟨t, error'⟩ := other
  rw [seen, seen, Prod.mk.injEq, Prod.mk.injEq] at h
  obtain ⟨⟨hlines, -⟩, rfl⟩ := h
  cases error with
  | some e => rfl
  | none => exact congrArg (fun lines : ScannedLines ↦
      (.ok ⟨header, lines.events, lines.committedBytes⟩ : Except LogError SessionLogScan)) hlines

/-- **The object scans as `scanLog` does**, in whatever chunks it is given the file. -/
theorem scanChunks_eq_scanLog (line : {line : List UInt8 // lfByte ∉ line})
    (chunks : List (List UInt8)) :
    scanChunks (line ++ [lfByte]) chunks = scanLog (line ++ lfByte :: chunks.flatten) := by
  obtain ⟨line, hline⟩ := line
  have hidx : (line ++ lfByte :: chunks.flatten).idxOf lfByte + 1 = (line ++ [lfByte]).length := by
    simp [List.idxOf_append_of_notMem hline]
  rw [scanLog, if_pos (by simp)]
  dsimp only
  rw [hidx, List.append_cons line _ chunks.flatten, List.take_left, List.drop_left, scanChunks,
    SessionLogScanner.create, create]
  cases parseHeaderRecord (line ++ [lfByte]) with
  | error e => rfl
  | ok header =>
    dsimp only
    set s : ScannerObject := { committedBytes := (line ++ [lfByte]).length,
                               inputBytes := (line ++ [lfByte]).length } with hs
    have hcounted : s.Counted := rfl
    have hwrite := returned_write header hcounted chunks.flatten
    rw [finish_returned header
      ((writeAll_eq hcounted chunks).1.trans (write_eq hcounted chunks.flatten).1.symm), ← hwrite]
    have hscanner : s.toScanner header = ⟨header, [], [], (line ++ [lfByte]).length,
      (line ++ [lfByte]).length, 0, none⟩ := rfl
    rw [hscanner]
    cases SessionLogScanner.write _ _ <;> rfl

end ScannerObject

end XxAgent.Jsonl
