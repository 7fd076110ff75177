import XxAgent.Jsonl.Recovery
import XxAgent.Session.Envelope

/-!
# Scanning lines is recovering a prefix

The scanner goes through the lines once. While it has no issue it extends the prefix; from its first
issue on it only looks for a completed turn. Each phase is a part of `recoverPrefix`, so on lines
that hold one record each the scan is `recoverPrefix` of the cells they hold.
-/

namespace XxAgent.Jsonl

open Ecma Framing PrefixScan

/-- The errors that say that a log is corrupt behind its header. -/
inductive LogError.IsCorrupt : LogError → Prop
  | unparsable (line : ℕ) : IsCorrupt (.unparsable line)
  | seqGap (line expected : ℕ) (got : Value) : IsCorrupt (.seqGap line expected got)

/-- The cell of a line: one that does not decode is a hole. -/
def cellOf (line : List UInt8) : Option Json := (decodeLine line).bind List.head?

/-- A line that holds at most one record, and no newline. -/
structure SingleRecord (line : List UInt8) : Prop where
  lf_not_mem : lfByte ∉ line
  decode : decodeLine line = none ∨ ∃ event, decodeLine line = some [event] ∧ event ≠ .null

theorem SingleRecord.cases {line : List UInt8} (h : SingleRecord line) :
    (decodeLine line = none ∧ cellOf line = none) ∨
      ∃ event, decodeLine line = some [event] ∧ cellOf line = some event ∧ event ≠ .null := by
  rcases h.decode with hd | ⟨event, hd, hne⟩
  · exact .inl ⟨hd, by rw [cellOf, hd]; rfl⟩
  · exact .inr ⟨event, hd, by rw [cellOf, hd]; rfl, hne⟩

theorem singleRecord_json (event : SessionEvent) : SingleRecord (recordLine event.json) := by
  have hrow : rowTag? event.json = none := event.not_row
  refine ⟨lfByte_not_mem_recordLine _, .inr ⟨event.json, ?_, by simp [SessionEvent.json]⟩⟩
  refine decodeLine_recordLine event.json_wf ?_
  rw [decodeStorageRecord, hrow]

theorem cellOf_json (event : SessionEvent) : cellOf (recordLine event.json) = some event.json := by
  have hrow : rowTag? event.json = none := event.not_row
  have hdecode : decodeLine (recordLine event.json) = some [event.json] :=
    decodeLine_recordLine event.json_wf (by rw [decodeStorageRecord, hrow])
  rw [cellOf, hdecode]
  rfl

/-! ## The two phases -/

namespace SessionLogScanner

/-- A result of a scan that had found `events` and finds the prefix of what follows. -/
def Finds (events : List Json) (found : Option (List Json)) :
    Except LogError SessionLogScanner → Prop
  | .error e => e.IsCorrupt ∧ found = none
  | .ok s => ∃ more, found = some more ∧ s.events = events ++ more

private theorem Finds.of_append {events : List Json} {event : Json} {found : Option (List Json)}
    {result : Except LogError SessionLogScanner} (h : Finds (events ++ [event]) found result) :
    Finds events (found.map (event :: ·)) result := by
  cases result with
  | error e => exact ⟨h.1, by rw [h.2]; rfl⟩
  | ok s =>
    obtain ⟨more, rfl, hs⟩ := h
    exact ⟨event :: more, rfl, by rw [hs, List.append_assoc, List.singleton_append]⟩

private theorem raiseIfTurnEnd_single {s : SessionLogScanner} {issue : LogError} {event : Json}
    (hne : event ≠ .null) :
    s.raiseIfTurnEnd issue [event] = if isTurnEnd event then .error issue else .ok s := by
  have hsome : someTurnEnd [event] = .ok (isTurnEnd event) := by
    rw [someTurnEnd, if_neg hne, isTurnEnd]
    split_ifs with h <;> simp [h, someTurnEnd]
  rw [raiseIfTurnEnd, hsome]
  cases isTurnEnd event <;> rfl

private theorem writeFrom_frame_cons (s : SessionLogScanner) (position : ℕ) {line : List UInt8}
    (hlf : lfByte ∉ line) (lines : List (List UInt8)) :
    s.writeFrom [] position (frame lfByte (line :: lines))
      = (consumeEventLine { s with fragments := [] } (s.fragments.flatten ++ line)
          (position + line.length + 1)).bind
        fun s ↦ writeFrom s [] (position + line.length + 1) (frame lfByte lines) := by
  rw [frame_cons, writeFrom_line s _ _ _ [] hlf, List.nil_append, writeFrom, if_pos rfl]
  cases consumeEventLine { s with fragments := [] } (s.fragments.flatten ++ line)
    (position + line.length + 1) <;> rfl

/-- With an issue the prefix is complete; what is left is to look for a completed turn. -/
private theorem writeFrom_of_issue {issue : LogError} (hissue : issue.IsCorrupt)
    (lines : List (List UInt8)) (hlines : ∀ line ∈ lines, SingleRecord line) :
    ∀ (s : SessionLogScanner) (position : ℕ), s.issue = some issue → s.fragments = [] →
      Finds s.events (if commits isTurnEnd (lines.map cellOf) then none else some [])
        (s.writeFrom [] position (frame lfByte lines)) := by
  induction lines with
  | nil => exact fun s position _ _ ↦ ⟨[], rfl, (List.append_nil _).symm⟩
  | cons line lines ih =>
    intro s position hs hfrag
    have hline := hlines line List.mem_cons_self
    have hrest := ih fun l hl ↦ hlines l (List.mem_cons_of_mem line hl)
    rw [writeFrom_frame_cons s position hline.lf_not_mem, hfrag, List.flatten_nil, List.nil_append,
      List.map_cons, consumeEventLine]
    rcases hline.cases with ⟨hd, hc⟩ | ⟨event, hd, hc, hne⟩
    · rw [hd, hc, commits_cons_none]
      exact hrest _ _ (by simp [hs]) rfl
    · rw [hd, hc, commits_cons_some]
      simp only [hs, raiseIfTurnEnd_single hne]
      cases isTurnEnd event with
      | true => exact ⟨hissue, rfl⟩
      | false => exact hrest _ _ rfl rfl

/-- Without one, the scan finds the prefix that recovery preserves. -/
theorem writeFrom_of_lines (lines : List (List UInt8)) (hlines : ∀ l ∈ lines, SingleRecord l) :
    ∀ (s : SessionLogScanner) (position : ℕ), s.issue = none → s.fragments = [] →
      Finds s.events (recoverPrefix s.events.length (lines.map cellOf))
        (s.writeFrom [] position (frame lfByte lines)) := by
  induction lines with
  | nil => exact fun s position _ _ ↦ ⟨[], rfl, (List.append_nil _).symm⟩
  | cons line lines ih =>
    intro s position hs hfrag
    have hline := hlines line List.mem_cons_self
    have hlines' : ∀ l ∈ lines, SingleRecord l := fun l hl ↦ hlines l (List.mem_cons_of_mem line hl)
    rw [writeFrom_frame_cons s position hline.lf_not_mem, hfrag, List.flatten_nil, List.nil_append,
      List.map_cons, consumeEventLine, recoverPrefix]
    rcases hline.cases with ⟨hd, hc⟩ | ⟨event, hd, hc, hne⟩
    · -- The first hole becomes the issue.
      rw [hd, hc, scan_cons_none]
      exact writeFrom_of_issue (.unparsable (s.eventLine + 1)) lines hlines' _ _ (by simp [hs]) rfl
    · rw [hd, hc]
      simp only [hs, pushDecoded, if_neg hne]
      by_cases hseq : event.get? "seq" = some (integer s.events.length)
      · rw [scan_cons_of_ok _ _ (decide_eq_true hseq), ← recoverPrefix, if_neg (not_not.mpr hseq)]
        have hrest := ih hlines' { s with
            events := s.events ++ [event], fragments := [], eventLine := s.eventLine + 1,
            committedBytes := position + line.length + 1, issue := none }
          (position + line.length + 1) rfl rfl
        rw [List.length_append, List.length_singleton] at hrest
        exact hrest.of_append
      · -- A gap becomes the issue, and the event behind it may already end a turn.
        rw [scan_cons_of_not _ _ (decide_eq_false hseq), if_pos hseq]
        simp only [raiseIfTurnEnd_single hne]
        cases hend : isTurnEnd event with
        | true => exact ⟨.seqGap _ _ _, rfl⟩
        | false =>
          exact writeFrom_of_issue (.seqGap (s.eventLine + 1) s.events.length (event.get? "seq"))
            lines hlines' _ _ rfl rfl

end SessionLogScanner

/-- **The one-pass scan of lines recovers the prefix.** -/
theorem scanLog_lines (header : SessionHeader) {lines : List (List UInt8)}
    (h : ∀ line ∈ lines, SingleRecord line) :
    (∃ e, scanLog (headerRecord header ++ frame lfByte lines) = .error e ∧ e.IsCorrupt ∧
        recoverPrefix 0 (lines.map cellOf) = none) ∨
      ∃ scan, scanLog (headerRecord header ++ frame lfByte lines) = .ok scan ∧
        recoverPrefix 0 (lines.map cellOf) = some scan.events := by
  have hscan := SessionLogScanner.writeFrom_of_lines lines h
    (.opened header (frame lfByte lines)) (headerRecord header).length rfl rfl
  rw [scanLog_headerRecord]
  cases hw : (SessionLogScanner.opened header (frame lfByte lines)).writeFrom []
      (headerRecord header).length (frame lfByte lines) with
  | error e =>
    rw [hw] at hscan
    exact .inl ⟨e, rfl, hscan⟩
  | ok t =>
    rw [hw] at hscan
    obtain ⟨more, hmore, ht⟩ := hscan
    have hevents : t.finish.events = more := ht
    exact .inr ⟨t.finish, rfl, hmore.trans (congrArg some hevents.symm)⟩

end XxAgent.Jsonl
