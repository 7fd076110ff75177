import XxAgent.Log.Framing
import XxAgent.Session.ChunkRowCodec

/-!
# The header line

The first record of a JSONL artifact: the immutable session header, tagged `session`. The writer
never meets an invalid header, since `SessionHeader` holds what creation validated. The reader trusts
nothing: it checks the shape again.
-/

namespace XxAgent.Jsonl

open Ecma

/-- The errors of a log that cannot be read. -/
inductive LogError where
  /-- No complete first line. -/
  | headerless
  /-- The first line is not JSON. -/
  | headerNotJson
  /-- The first line is no session header. -/
  | notHeader
  /-- `SessionFormatUnsupportedError`. -/
  | foreignVersion (id : Value) (version : Number)
  /-- The header uses fields of a retired format. -/
  | retiredFields
  /-- A line before a completed turn is not a stored event. -/
  | unparsable (line : ℕ)
  /-- A line before a completed turn does not continue the log. -/
  | seqGap (line expected : ℕ) (got : Value)
  /-- `TypeError`: a property of `null` was read. -/
  | nullProperty
deriving DecidableEq

/-- The message of an error. -/
def LogError.message : LogError → JsString
  | headerless => js "empty or header-less session log"
  | headerNotJson => js "corrupt session log: header line is not valid JSON"
  | notHeader => js "corrupt session log: first line is not a session header"
  | foreignVersion id version => sessionFormatVersionRefusal (display id) (some (.num version))
  | retiredFields => js "session header uses retired policy baseline fields"
  | unparsable line =>
    js "corrupt session log: unparsable committed event at line " ++ natText line
  | seqGap line expected got =>
    js "corrupt session log: seq gap in committed region at line " ++ natText line ++
      js " (expected " ++ natText expected ++ js ", got " ++ display got ++ js ")"
  | nullProperty => js "Cannot read properties of null"

/-- The fields of the header line. -/
def headerLineFields (header : SessionHeader) : List (String × Value) := [
  ("type", some (text "session")),
  ("version", some (integer header.version)),
  ("id", some (.str header.id)),
  ("createdAt", some (integer header.createdAt.val)),
  ("cwd", header.cwd.map .str),
  ("parentSession", header.parentSession.map .str),
  ("seedLength", header.seedLength.map fun n ↦ integer n.val),
  ("origin", if header.subagent then some (text "subagent") else none),
  ("delegationDepth", some (integer ((header.delegationDepth.map SafeNat.val).getD 0 : ℕ))),
  ("agentPreset", header.agentPreset.map .str)]

/-- The header line object of a header, absent optional fields omitted. -/
def toHeaderLine (header : SessionHeader) : Json := .obj (definedFields (headerLineFields header))

/-- Refuse a header with a version this build does not read, before its shape is checked. -/
def refuseForeignFormatVersion (parsed : Json) : Except LogError Unit :=
  match parsed.get? "version" with
  | some (.num version) =>
    if version = .int SESSION_FORMAT_VERSION then .ok ()
    else .error (.foreignVersion (parsed.get? "id") version)
  | _ => .ok ()

/-- A non-negative safe integer field. -/
def isSafeNat (v : Value) : Bool := v.isNumber && v.isSafeInteger && decide (0 ≤ v.toInt)

/-- A parsed first line is a well-formed session header. -/
def isHeaderLine (value : Json) : Bool :=
  Value.isRecord (some value)
    && decide (value.get? "type" = some (text "session"))
    && Value.isNumber (value.get? "version")
    && Value.isString (value.get? "id")
    && isSafeNat (value.get? "createdAt")
    && isSafeNat (value.get? "delegationDepth")
    && (decide (value.get? "origin" = none) || decide (value.get? "origin" = some (text "subagent")))
    && (decide (value.get? "agentPreset" = none) || Value.isString (value.get? "agentPreset"))

/-- The header of a shape-checked line, absent optional fields omitted. -/
def fromHeaderLine (line : Json) : Except LogError Json :=
  if Value.hasOwn "sandboxMode" (some line) || Value.hasOwn "approvalPolicy" (some line) then
    .error .retiredFields
  else
    .ok (.obj (definedFields [
      ("version", line.get? "version"),
      ("id", line.get? "id"),
      ("createdAt", line.get? "createdAt"),
      ("cwd", line.get? "cwd"),
      ("parentSession", line.get? "parentSession"),
      ("seedLength", line.get? "seedLength"),
      ("origin", line.get? "origin"),
      ("delegationDepth", line.get? "delegationDepth"),
      ("agentPreset", line.get? "agentPreset")]))

/-- Parse one complete header record. -/
def parseHeaderRecord (record : List UInt8) : Except LogError Json :=
  if record = [] ∨ record.getLast? ≠ some lfByte ∨ lfByte ∈ record.dropLast then .error .headerless
  else
    match parse (decodeUtf8 record.dropLast) with
    | none => .error .headerNotJson
    | some parsed =>
      match refuseForeignFormatVersion parsed with
      | .error e => .error e
      | .ok () => if isHeaderLine parsed then fromHeaderLine parsed else .error .notHeader

/-! ## A written header reads back -/

/-- The header record as it is written: its line and the newline. -/
def headerRecord (header : SessionHeader) : List UInt8 :=
  encodeUtf8 (stringify (toHeaderLine header) ++ [lf])

/-- The header as the reader returns it: the depth of a top-level session is written out. -/
def headerMeta (header : SessionHeader) : Json := .obj (definedFields (headerLineFields header).tail)

private theorem nodup_headerLineFields (header : SessionHeader) :
    ((headerLineFields header).map Prod.fst).Nodup := by
  simp [headerLineFields]

/-- A lookup in the header line. -/
private theorem toHeaderLine_get {header : SessionHeader} {k : String} {v : Value}
    (h : (k, v) ∈ headerLineFields header) : (toHeaderLine header).get? k = v :=
  fieldOf_definedFields (nodup_headerLineFields header) h

private theorem scalar_of_mem {header : SessionHeader} {k : String} {x : Json}
    (h : (k, some x) ∈ headerLineFields header) : (∃ s, x = .str s) ∨ ∃ n, x = .num n := by
  simp only [headerLineFields, List.mem_cons, Prod.mk.injEq, List.not_mem_nil, or_false] at h
  rcases h with ⟨-, h⟩ | ⟨-, h⟩ | ⟨-, h⟩ | ⟨-, h⟩ | ⟨-, h⟩ | ⟨-, h⟩ | ⟨-, h⟩ | ⟨-, h⟩ | ⟨-, h⟩ | ⟨-, h⟩
  · exact Or.inl ⟨_, Option.some.inj h⟩
  · exact Or.inr ⟨_, Option.some.inj h⟩
  · exact Or.inl ⟨_, Option.some.inj h⟩
  · exact Or.inr ⟨_, Option.some.inj h⟩
  · obtain ⟨s, -, hs⟩ := Option.map_eq_some_iff.mp h.symm
    exact Or.inl ⟨s, hs.symm⟩
  · obtain ⟨s, -, hs⟩ := Option.map_eq_some_iff.mp h.symm
    exact Or.inl ⟨s, hs.symm⟩
  · obtain ⟨n, -, hn⟩ := Option.map_eq_some_iff.mp h.symm
    exact Or.inr ⟨_, hn.symm⟩
  · split_ifs at h
    exact Or.inl ⟨_, Option.some.inj h⟩
  · exact Or.inr ⟨_, Option.some.inj h⟩
  · obtain ⟨s, -, hs⟩ := Option.map_eq_some_iff.mp h.symm
    exact Or.inl ⟨s, hs.symm⟩

theorem toHeaderLine_wf (header : SessionHeader) : (toHeaderLine header).WF := by
  refine wf_definedFields (nodup_headerLineFields header) ?_ fun k x hx ↦ ?_
  · simp only [headerLineFields, List.map_cons, List.map_nil]
    decide +kernel
  · rcases scalar_of_mem hx with ⟨s, rfl⟩ | ⟨n, rfl⟩ <;> trivial

private theorem isSafeNat_integer (n : SafeNat) : isSafeNat (some (integer n.val)) = true := by
  have hsafe : Value.isSafeInteger (some (integer n.val)) = true :=
    Value.isSafeInteger_iff.mpr ⟨_, rfl, n.safe⟩
  have hnum : Value.isNumber (some (integer n.val)) = true := rfl
  have hnonneg : (0 : ℤ) ≤ Value.toInt (some (integer n.val)) := Int.natCast_nonneg _
  simp [isSafeNat, hsafe, hnum, hnonneg]

private theorem isHeaderLine_toHeaderLine (header : SessionHeader) :
    isHeaderLine (toHeaderLine header) = true := by
  have htype : (toHeaderLine header).get? "type" = some (text "session") :=
    toHeaderLine_get (by simp [headerLineFields])
  have hversion : (toHeaderLine header).get? "version" = some (integer header.version) :=
    toHeaderLine_get (by simp [headerLineFields])
  have hid : (toHeaderLine header).get? "id" = some (.str header.id) :=
    toHeaderLine_get (by simp [headerLineFields])
  have hcreated : (toHeaderLine header).get? "createdAt" = some (integer header.createdAt.val) :=
    toHeaderLine_get (by simp [headerLineFields])
  have hdepth : (toHeaderLine header).get? "delegationDepth"
      = some (integer ((header.delegationDepth.map SafeNat.val).getD 0 : ℕ)) :=
    toHeaderLine_get (by simp [headerLineFields])
  have horigin : (toHeaderLine header).get? "origin"
      = if header.subagent then some (text "subagent") else none :=
    toHeaderLine_get (by simp [headerLineFields])
  have hpreset : (toHeaderLine header).get? "agentPreset" = header.agentPreset.map .str :=
    toHeaderLine_get (by simp [headerLineFields])
  have hrecord : Value.isRecord (some (toHeaderLine header)) = true := rfl
  have hdepth_ok : isSafeNat
      (some (integer ((header.delegationDepth.map SafeNat.val).getD 0 : ℕ))) = true := by
    cases header.delegationDepth with
    | none => decide
    | some n => exact isSafeNat_integer n
  have horigin_ok : (decide ((if header.subagent then some (text "subagent") else none) = none)
      || decide ((if header.subagent then some (text "subagent") else none)
        = some (text "subagent"))) = true := by
    cases header.subagent <;> simp
  have hpreset_ok : (decide (header.agentPreset.map Json.str = none)
      || Value.isString (header.agentPreset.map .str)) = true := by
    cases header.agentPreset <;> simp [Value.isString]
  rw [isHeaderLine, hrecord, htype, hversion, hid, hcreated, isSafeNat_integer, hdepth,
    hdepth_ok, horigin, horigin_ok, hpreset, hpreset_ok]
  simp [Value.isNumber, Value.isString, integer]

private theorem fromHeaderLine_toHeaderLine (header : SessionHeader) :
    fromHeaderLine (toHeaderLine header) = .ok (headerMeta header) := by
  have hretired : ∀ k ∈ ["sandboxMode", "approvalPolicy"],
      Value.hasOwn k (some (toHeaderLine header)) = false := by
    intro k hk
    have hnone : fieldOf (js k) (definedFields (headerLineFields header)) = none := by
      refine fieldOf_definedFields_of_not_mem ?_
      simp only [List.mem_cons, List.not_mem_nil, or_false] at hk
      rcases hk with rfl | rfl <;> simp [headerLineFields]
    rw [Value.hasOwn, Value.get_some, toHeaderLine, Json.get?_obj, hnone]
    rfl
  have hget : ∀ {k : String} {v : Value}, (k, v) ∈ headerLineFields header →
      (toHeaderLine header).get? k = v := toHeaderLine_get
  rw [fromHeaderLine, hretired "sandboxMode" (by simp), hretired "approvalPolicy" (by simp),
    headerMeta, headerLineFields, List.tail_cons, if_neg (by decide +kernel)]
  simp only [headerLineFields, List.mem_cons] at hget
  rw [hget (k := "version") (by tauto), hget (k := "id") (by tauto),
    hget (k := "createdAt") (by tauto), hget (k := "cwd") (by tauto),
    hget (k := "parentSession") (by tauto), hget (k := "seedLength") (by tauto),
    hget (k := "origin") (by tauto), hget (k := "delegationDepth") (by tauto),
    hget (k := "agentPreset") (by tauto)]

/-- The header record is one line. -/
theorem exists_headerRecord_eq (header : SessionHeader) : ∃ line, lfByte ∉ line ∧
    headerRecord header = line ++ [lfByte] ∧
    decodeUtf8 line = stringify (toHeaderLine header) := by
  have hline := lineText_stringify (toHeaderLine header)
  refine ⟨encodeUtf8 (stringify (toHeaderLine header)),
    lfByte_not_mem_encodeUtf8 hline.wellFormed hline.lf_not_mem, ?_,
    decodeUtf8_encodeUtf8 hline.wellFormed⟩
  rw [headerRecord, encodeUtf8_append hline.wellFormed, encodeUtf8_lf]

/-- **A written header reads back.** -/
theorem parseHeaderRecord_headerRecord (header : SessionHeader) :
    parseHeaderRecord (headerRecord header) = .ok (headerMeta header) := by
  obtain ⟨line, hlf, hbytes, hdecode⟩ := exists_headerRecord_eq header
  have hversion : (toHeaderLine header).get? "version" = some (integer header.version) :=
    toHeaderLine_get (by simp [headerLineFields])
  have hrefuse : refuseForeignFormatVersion (toHeaderLine header) = .ok () := by
    rw [refuseForeignFormatVersion, hversion, header.version_eq]
    rfl
  rw [parseHeaderRecord, hbytes, if_neg (by simp [hlf]), List.dropLast_concat,
    hdecode, parse_stringify (toHeaderLine_wf header)]
  dsimp only
  rw [hrefuse, isHeaderLine_toHeaderLine, if_pos rfl, fromHeaderLine_toHeaderLine]

/-!
## The JSONL log

The writer appends batches of lines; the reader, `SessionLogScanner`, goes through complete lines
and keeps the contiguous prefix of events together with the offset at which it ends. A line that
does not parse or does not continue the log is an issue: tolerated when it is the tail of a crash,
an error as soon as a completed turn follows it.

Bytes stay bytes until a line is complete, so a cut inside a character is a cut inside a line.
-/

open Framing

/-! ## Writing -/

/-- The storage records of a batch. -/
def storageRecords (events : List SessionEvent) (packChunks : Bool) : List Json :=
  if packChunks then packChunkRuns events else events.map SessionEvent.json

/-- `strings.join('\n')`. -/
def joinLines : List JsString → JsString
  | [] => []
  | [s] => s
  | s :: t :: rest => s ++ lf :: joinLines (t :: rest)

/-- Serialize an event batch as JSONL lines, without a trailing newline. -/
def eventLines (events : List SessionEvent) (packChunks : Bool) : JsString :=
  joinLines ((storageRecords events packChunks).map stringify)

/-- One durable append: the lines of a batch and the final newline. -/
def encodeEventBatch (events : List SessionEvent) (packChunks : Bool) : List UInt8 :=
  encodeUtf8 (eventLines events packChunks ++ [lf])

/-! ## Scanning -/

/-- The scanner of event records after the header record. -/
structure SessionLogScanner where
  /-- The header. -/
  header : Json
  /-- The contiguous prefix so far. -/
  events : List Json
  /-- The pieces of an incomplete record, in order. -/
  fragments : List (List UInt8)
  /-- The bytes supplied. -/
  inputBytes : ℕ
  /-- The end of the last line of the prefix. -/
  committedBytes : ℕ
  /-- The event lines consumed. -/
  eventLine : ℕ
  /-- The first line that is not part of the log, unless nothing durable follows it. -/
  issue : Option LogError
deriving DecidableEq

/-- What a scan finds. -/
structure SessionLogScan where
  /-- The header. -/
  header : Json
  /-- The preserved prefix. -/
  events : List Json
  /-- The offset safe to append at. -/
  committedBytes : ℕ
deriving DecidableEq

/-- `decoded.some(event => event.type === 'turn/end')`. -/
def someTurnEnd : List Json → Except LogError Bool
  | [] => .ok false
  | event :: rest =>
    if event = .null then .error .nullProperty
    else if event.get? "type" = some (text "turn/end") then .ok true
    else someTurnEnd rest

/-- Push decoded events while they continue the log; the first that does not, with the length
expected of it. -/
def pushDecoded : List Json → List Json → Except LogError (List Json ⊕ ℕ × Value)
  | events, [] => .ok (.inl events)
  | events, event :: rest =>
    if event = .null then .error .nullProperty
    else if event.get? "seq" ≠ some (integer events.length) then
      .ok (.inr (events.length, event.get? "seq"))
    else pushDecoded (events ++ [event]) rest

/-- The events of one complete line; `none` when it does not parse or decode. -/
def decodeLine (line : List UInt8) : Option (List Json) :=
  match parse (decodeUtf8 line) with
  | none => none
  | some value =>
    match decodeStorageRecord value with
    | .error _ => none
    | .ok decoded => some decoded

namespace SessionLogScanner

/-- Create an event scanner from one header record. -/
def create (headerRecord : List UInt8) : Except LogError SessionLogScanner :=
  match parseHeaderRecord headerRecord with
  | .error e => .error e
  | .ok parsed => .ok ⟨parsed, [], [], headerRecord.length, headerRecord.length, 0, none⟩

/-- Throw an issue that a completed turn follows. -/
def raiseIfTurnEnd (s : SessionLogScanner) (issue : LogError) (decoded : List Json) :
    Except LogError SessionLogScanner :=
  match someTurnEnd decoded with
  | .error e => .error e
  | .ok true => .error issue
  | .ok false => .ok s

/-- Decode one complete event row and update the contiguous prefix. -/
def consumeEventLine (s : SessionLogScanner) (line : List UInt8) (endByte : ℕ) :
    Except LogError SessionLogScanner :=
  let s := { s with eventLine := s.eventLine + 1 }
  match decodeLine line with
  | none => .ok { s with issue := some (s.issue.getD (.unparsable s.eventLine)) }
  | some decoded =>
    match s.issue with
    | some issue => s.raiseIfTurnEnd issue decoded
    | none =>
      match pushDecoded s.events decoded with
      | .error e => .error e
      | .ok (.inl events) => .ok { s with events := events, committedBytes := endByte }
      | .ok (.inr (expected, got)) =>
        let issue := .seqGap s.eventLine expected got
        raiseIfTurnEnd { s with issue := some issue } issue decoded

/-- Consume a chunk from offset `position` on, `fragment` being what it holds of the current
line. -/
def writeFrom (s : SessionLogScanner) (fragment : List UInt8) (position : ℕ) :
    List UInt8 → Except LogError SessionLogScanner
  | [] => .ok (if fragment = [] then s else { s with fragments := s.fragments ++ [fragment] })
  | b :: rest =>
    if b = lfByte then
      match consumeEventLine { s with fragments := [] } (s.fragments.flatten ++ fragment)
          (position + 1) with
      | .error e => .error e
      | .ok s => writeFrom s [] (position + 1) rest
    else writeFrom s (fragment ++ [b]) (position + 1) rest

/-- Consume the next plaintext chunk. -/
def write (s : SessionLogScanner) (chunk : List UInt8) : Except LogError SessionLogScanner :=
  writeFrom { s with inputBytes := s.inputBytes + chunk.length } [] s.inputBytes chunk

/-- Finish scanning; an incomplete final record is a torn tail. -/
def finish (s : SessionLogScanner) : SessionLogScan := ⟨s.header, s.events, s.committedBytes⟩

end SessionLogScanner

/-- Parse a complete or torn buffer into its preserved event prefix. -/
def scanLog (buffer : List UInt8) : Except LogError SessionLogScan :=
  if lfByte ∈ buffer then
    let headerEnd := buffer.idxOf lfByte
    match SessionLogScanner.create (buffer.take (headerEnd + 1)) with
    | .error e => .error e
    | .ok scanner =>
      match scanner.write (buffer.drop (headerEnd + 1)) with
      | .error e => .error e
      | .ok scanner => .ok scanner.finish
  else .error .headerless

/-!
## Crash recovery of the JSONL log

A log is a header record and a framed list of storage records. Whatever a crash leaves of it is some
of these records, complete, and a piece without a newline (`Framing.exists_take_of_prefix`); the
scanner goes through the complete ones and stops at the end of the last (`scanLog_frame`). What was
left can therefore be cut off and appended to.
-/

/-! ## The written bytes -/

/-- The bytes of one record, without its newline. -/
def recordLine (record : Json) : List UInt8 := encodeUtf8 (stringify record)

/-- The bytes of a list of records. -/
def recordLines (records : List Json) : List UInt8 := frame lfByte (records.map recordLine)

theorem lfByte_not_mem_recordLine (record : Json) : lfByte ∉ recordLine record :=
  lfByte_not_mem_encodeUtf8 (lineText_stringify record).wellFormed
    (lineText_stringify record).lf_not_mem

private theorem encodeUtf8_joinLines {records : List Json} (h : records ≠ []) :
    encodeUtf8 (joinLines (records.map stringify) ++ [lf]) = recordLines records := by
  induction records with
  | nil => exact absurd rfl h
  | cons r rs ih =>
    have hr := (lineText_stringify r).wellFormed
    cases rs with
    | nil =>
      rw [List.map_singleton, joinLines, encodeUtf8_append hr, encodeUtf8_lf]
      simp [recordLines, recordLine]
    | cons s rs =>
      have hlf : WellFormed [lf] := wellFormed_singleton (by decide) (by decide)
      have hrest := ih (List.cons_ne_nil s rs)
      rw [List.map_cons] at hrest
      rw [List.map_cons, List.map_cons, joinLines, List.append_assoc, encodeUtf8_append hr,
        ← List.singleton_append, List.append_assoc, encodeUtf8_append hlf, encodeUtf8_lf, hrest]
      simp [recordLines, recordLine]

theorem storageRecords_ne_nil {events : List SessionEvent} (h : events ≠ []) (packChunks : Bool) :
    storageRecords events packChunks ≠ [] := by
  cases packChunks with
  | false => simpa [storageRecords] using h
  | true =>
    intro hc
    have hdecode := decode_packChunkRuns events
    rw [storageRecords, if_pos rfl] at hc
    rw [hc] at hdecode
    have hlen := (forall₂_rebuilt_splitBy events).length_eq
    rw [← Except.ok.inj hdecode, List.length_nil, List.length_map] at hlen
    exact h (List.length_eq_zero_iff.mp hlen.symm)

/-- A batch is written record by record. -/
theorem encodeEventBatch_eq {events : List SessionEvent} (h : events ≠ []) (packChunks : Bool) :
    encodeEventBatch events packChunks = recordLines (storageRecords events packChunks) := by
  rw [encodeEventBatch, eventLines, encodeUtf8_joinLines (storageRecords_ne_nil h packChunks)]

theorem wf_storageRecords (events : List SessionEvent) (packChunks : Bool) :
    ∀ x ∈ storageRecords events packChunks, x.WF := by
  cases packChunks with
  | true => exact wf_packChunkRuns events
  | false =>
    intro x hx
    obtain ⟨e, -, rfl⟩ := List.mem_map.mp hx
    exact e.json_wf

/-- A batch decodes to its events, up to key order. -/
theorem exists_decode_storageRecords (events : List SessionEvent) (packChunks : Bool) :
    ∃ decoded, decodeStorageRecords (storageRecords events packChunks) = .ok decoded ∧
      List.Forall₂ Json.SameValue decoded (events.map SessionEvent.json) := by
  cases packChunks with
  | true => exact ⟨_, decode_packChunkRuns events, forall₂_rebuilt_splitBy events⟩
  | false =>
    exact ⟨_, decodeStorageRecords_json events, List.forall₂_same.mpr fun x _ ↦ .refl x⟩

/-! ## Contiguous events -/

/-- The events are numbered one after another, from `n` on. -/
def ContiguousFrom (n : ℕ) : List Json → Prop
  | [] => True
  | event :: rest => event.get? "seq" = some (integer n) ∧ ContiguousFrom (n + 1) rest

theorem contiguousFrom_append {n : ℕ} {xs ys : List Json} :
    ContiguousFrom n (xs ++ ys) ↔ ContiguousFrom n xs ∧ ContiguousFrom (n + xs.length) ys := by
  induction xs generalizing n with
  | nil => simp [ContiguousFrom]
  | cons x xs ih =>
    rw [List.cons_append, ContiguousFrom, ContiguousFrom, ih, List.length_cons, and_assoc,
      show n + 1 + xs.length = n + (xs.length + 1) from by ring]

/-- Key order does not touch the numbers. -/
theorem ContiguousFrom.of_sameValue {n : ℕ} {xs ys : List Json}
    (h : List.Forall₂ Json.SameValue xs ys) (hy : ContiguousFrom n ys)
    (hwf : ∀ y ∈ ys, y.NodupKeys) : ContiguousFrom n xs := by
  induction h generalizing n with
  | nil => trivial
  | cons hxy _ ih =>
    exact ⟨hxy.symm.get?_num (hwf _ List.mem_cons_self) hy.1,
      ih hy.2 fun y hm ↦ hwf y (List.mem_cons_of_mem _ hm)⟩

theorem nodupKeys_of_mem_json {events : List SessionEvent} :
    ∀ y ∈ events.map SessionEvent.json, y.NodupKeys := by
  intro y hy
  obtain ⟨e, -, rfl⟩ := List.mem_map.mp hy
  exact e.json_wf.nodupKeys

theorem pushDecoded_of_contiguous {decoded : List Json} : ∀ {events : List Json},
    ContiguousFrom events.length decoded →
      pushDecoded events decoded = .ok (.inl (events ++ decoded)) := by
  induction decoded with
  | nil =>
    intro events _
    rw [List.append_nil]
    rfl
  | cons event rest ih =>
    intro events h
    have hnull : event ≠ .null := by
      rintro rfl
      exact absurd h.1 (by simp [Json.get?])
    rw [pushDecoded, if_neg hnull, if_neg (not_not.mpr h.1), ih (by simpa using h.2),
      List.append_assoc, List.singleton_append]

/-! ## Scanning complete records -/

theorem decodeLine_recordLine {record : Json} (h : record.WF) {decoded : List Json}
    (hd : decodeStorageRecord record = .ok decoded) :
    decodeLine (recordLine record) = some decoded := by
  rw [decodeLine, recordLine, decodeUtf8_encodeUtf8 (lineText_stringify record).wellFormed,
    parse_stringify h]
  dsimp only
  rw [hd]

namespace SessionLogScanner

/-- The scanner after complete lines that all continue the log. -/
def advanced (s : SessionLogScanner) (decoded : List Json) (endByte lines : ℕ) :
    SessionLogScanner :=
  { s with events := s.events ++ decoded, committedBytes := endByte,
           eventLine := s.eventLine + lines, issue := none }

/-- The bytes of one line go into the current fragment. -/
theorem writeFrom_line (s : SessionLogScanner) (position : ℕ) (rest : List UInt8) :
    ∀ (line fragment : List UInt8), lfByte ∉ line →
      s.writeFrom fragment position (line ++ rest)
        = s.writeFrom (fragment ++ line) (position + line.length) rest := by
  intro line
  induction line generalizing position with
  | nil =>
    intro fragment _
    rw [List.append_nil, List.nil_append, List.length_nil, Nat.add_zero]
  | cons b line ih =>
    intro fragment hlf
    have hb : b ≠ lfByte := fun hc ↦ hlf (hc ▸ List.mem_cons_self)
    rw [List.cons_append, writeFrom, if_neg hb,
      ih (position + 1) (fragment ++ [b]) fun hc ↦ hlf (List.mem_cons_of_mem b hc),
      List.append_assoc, List.singleton_append, List.length_cons, Nat.add_right_comm, Nat.add_assoc]

/-- A rest without a newline is only kept. -/
private theorem writeFrom_rest (s : SessionLogScanner) (position : ℕ) {rest : List UInt8}
    (h : lfByte ∉ rest) : ∃ t, s.writeFrom [] position rest = .ok t ∧ t.finish = s.finish := by
  have hline := writeFrom_line s position [] rest [] h
  rw [List.append_nil, List.nil_append] at hline
  rw [hline, writeFrom]
  split_ifs
  · exact ⟨s, rfl, rfl⟩
  · exact ⟨_, rfl, rfl⟩

/-- Consuming one good record. -/
private theorem consumeEventLine_record {s : SessionLogScanner} (hissue : s.issue = none)
    {record : Json} (hwf : record.WF) {decoded : List Json}
    (hd : decodeStorageRecord record = .ok decoded)
    (hseq : ContiguousFrom s.events.length decoded) (endByte : ℕ) :
    s.consumeEventLine (recordLine record) endByte = .ok (s.advanced decoded endByte 1) := by
  rw [consumeEventLine, decodeLine_recordLine hwf hd]
  dsimp only
  rw [hissue]
  dsimp only
  rw [pushDecoded_of_contiguous hseq]
  rfl

/-- The scan of complete records, each of which continues the log: the prefix ends where the last
record does. -/
theorem writeFrom_records {records : List Json} (rest : List UInt8) :
    ∀ {s : SessionLogScanner} {decoded : List Json}, s.issue = none → s.fragments = [] →
      (∀ r ∈ records, r.WF) → decodeStorageRecords records = .ok decoded →
      ContiguousFrom s.events.length decoded →
      s.writeFrom [] s.committedBytes (recordLines records ++ rest)
        = (s.advanced decoded (s.committedBytes + (recordLines records).length)
            records.length).writeFrom [] (s.committedBytes + (recordLines records).length) rest := by
  induction records with
  | nil =>
    intro s decoded hissue _ _ hd _
    obtain rfl : [] = decoded := Except.ok.inj hd
    have hs : s.advanced [] (s.committedBytes + (recordLines []).length) ([] : List Json).length
        = s := by
      obtain ⟨header, events, fragments, input, committed, line, issue⟩ := s
      obtain rfl : issue = none := hissue
      simp [advanced, recordLines]
    rw [hs]
    rfl
  | cons record records ih =>
    intro s decoded hissue hfrag hwf hd hseq
    obtain ⟨first, others, hfirst, hothers, rfl⟩ := decodeStorageRecords_cons hd
    rw [contiguousFrom_append] at hseq
    have hconsume := consumeEventLine_record (s := { s with fragments := [] }) hissue
      (hwf record List.mem_cons_self) hfirst hseq.1
      (s.committedBytes + (recordLine record).length + 1)
    have hrest := ih (s := advanced { s with fragments := [] } first
        (s.committedBytes + (recordLine record).length + 1) 1) rfl rfl
      (fun r hr ↦ hwf r (List.mem_cons_of_mem record hr)) hothers
      (by simpa [advanced] using hseq.2)
    have hlines : recordLines (record :: records)
        = recordLine record ++ lfByte :: recordLines records := by
      rw [recordLines, List.map_cons, frame_cons, recordLines]
    rw [hlines, List.append_assoc, List.cons_append,
      writeFrom_line s _ _ _ [] (lfByte_not_mem_recordLine record), List.nil_append, writeFrom,
      if_pos rfl, hfrag, List.flatten_nil, List.nil_append, hconsume]
    have hend : s.committedBytes + (recordLine record).length + 1 + (recordLines records).length
        = s.committedBytes + (recordLine record ++ lfByte :: recordLines records).length := by
      rw [List.length_append, List.length_cons]
      omega
    have hstate : (advanced { s with fragments := [] } first
          (s.committedBytes + (recordLine record).length + 1) 1).advanced others
          (s.committedBytes + (recordLine record ++ lfByte :: recordLines records).length)
          records.length
        = s.advanced (first ++ others)
          (s.committedBytes + (recordLine record ++ lfByte :: recordLines records).length)
          (records.length + 1) := by
      simp only [advanced, List.append_assoc, hfrag, Nat.add_assoc, Nat.add_comm 1]
    have hcommitted : (advanced { s with fragments := [] } first
        (s.committedBytes + (recordLine record).length + 1) 1).committedBytes
        = s.committedBytes + (recordLine record).length + 1 := rfl
    rw [hcommitted, hend, hstate] at hrest
    exact hrest

end SessionLogScanner

/-- A scanner that has read the header record and is given the rest of a log. -/
def SessionLogScanner.opened (header : SessionHeader) (body : List UInt8) : SessionLogScanner :=
  ⟨headerMeta header, [], [], (headerRecord header).length + body.length,
    (headerRecord header).length, 0, none⟩

/-- The scan of a log is the scan of what follows its header record. -/
theorem scanLog_headerRecord (header : SessionHeader) (body : List UInt8) :
    scanLog (headerRecord header ++ body)
      = ((SessionLogScanner.opened header body).writeFrom [] (headerRecord header).length
          body).map SessionLogScanner.finish := by
  obtain ⟨line, hline, hbytes, -⟩ := exists_headerRecord_eq header
  have hmem : lfByte ∈ headerRecord header ++ body := by
    rw [hbytes]
    simp
  have hidx : (headerRecord header ++ body).idxOf lfByte + 1 = (headerRecord header).length := by
    rw [hbytes, List.append_assoc, List.idxOf_append_of_notMem hline]
    simp
  have hcreate : SessionLogScanner.create (headerRecord header) = .ok ⟨headerMeta header, [], [],
      (headerRecord header).length, (headerRecord header).length, 0, none⟩ := by
    rw [SessionLogScanner.create, parseHeaderRecord_headerRecord]
  rw [scanLog, if_pos hmem]
  dsimp only
  rw [hidx, List.take_left, List.drop_left, hcreate]
  dsimp only
  have hwrite : SessionLogScanner.write ⟨headerMeta header, [], [], (headerRecord header).length,
      (headerRecord header).length, 0, none⟩ body
      = (SessionLogScanner.opened header body).writeFrom [] (headerRecord header).length body := rfl
  rw [hwrite]
  cases (SessionLogScanner.opened header body).writeFrom [] (headerRecord header).length body <;>
    rfl

/-- **What a scan finds** in a header record, complete records that continue one another, and a
piece without a newline. -/
theorem scanLog_records (header : SessionHeader) {records decoded : List Json}
    (hwf : ∀ r ∈ records, r.WF) (hd : decodeStorageRecords records = .ok decoded)
    (hseq : ContiguousFrom 0 decoded) {rest : List UInt8} (hrest : lfByte ∉ rest) :
    scanLog (headerRecord header ++ recordLines records ++ rest) = .ok ⟨headerMeta header, decoded,
      (headerRecord header ++ recordLines records).length⟩ := by
  rw [List.append_assoc, scanLog_headerRecord]
  set start := SessionLogScanner.opened header (recordLines records ++ rest) with hstart
  have hscan := SessionLogScanner.writeFrom_records (s := start) rest rfl rfl hwf hd hseq
  obtain ⟨t, ht, hfinish⟩ := SessionLogScanner.writeFrom_rest
    (start.advanced decoded (start.committedBytes + (recordLines records).length) records.length)
    (start.committedBytes + (recordLines records).length) hrest
  rw [ht] at hscan
  have hwrite : start.writeFrom [] (headerRecord header).length (recordLines records ++ rest)
      = .ok t := hscan
  rw [hwrite, Except.map, hfinish, List.length_append]
  rfl

/-! ## Recovery -/

/-- A batch to append. -/
structure Batch where
  /-- Its events. -/
  events : List SessionEvent
  /-- Whether delta runs are packed. -/
  packChunks : Bool
  /-- A writer is not called without events. -/
  nonempty : events ≠ []

/-- The bytes of a batch. -/
def Batch.bytes (b : Batch) : List UInt8 := encodeEventBatch b.events b.packChunks

/-- The records of a batch. -/
def Batch.records (b : Batch) : List Json := storageRecords b.events b.packChunks

/-- The events written, as values. -/
def writtenEvents (batches : List Batch) : List Json :=
  batches.flatMap fun b ↦ b.events.map SessionEvent.json

/-- The file that a sequence of appends leaves. -/
def logBytes (header : SessionHeader) (batches : List Batch) : List UInt8 :=
  headerRecord header ++ batches.flatMap Batch.bytes

private theorem recordLines_append (xs ys : List Json) :
    recordLines (xs ++ ys) = recordLines xs ++ recordLines ys := by
  rw [recordLines, List.map_append, frame_append, recordLines, recordLines]

theorem Batch.bytes_eq (b : Batch) : b.bytes = recordLines b.records :=
  encodeEventBatch_eq b.nonempty b.packChunks

theorem flatMap_bytes_eq (batches : List Batch) :
    batches.flatMap Batch.bytes = recordLines (batches.flatMap Batch.records) := by
  induction batches with
  | nil => rfl
  | cons b batches ih =>
    rw [List.flatMap_cons, List.flatMap_cons, recordLines_append, ih, b.bytes_eq]

theorem wf_records (batches : List Batch) :
    ∀ r ∈ batches.flatMap Batch.records, r.WF := by
  intro r hr
  obtain ⟨b, -, hb⟩ := List.mem_flatMap.mp hr
  exact wf_storageRecords b.events b.packChunks r hb

theorem exists_decode_records (batches : List Batch) :
    ∃ decoded, decodeStorageRecords (batches.flatMap Batch.records) = .ok decoded ∧
      List.Forall₂ Json.SameValue decoded (writtenEvents batches) := by
  induction batches with
  | nil => exact ⟨[], rfl, .nil⟩
  | cons b batches ih =>
    obtain ⟨xs, hxs, hsame⟩ := exists_decode_storageRecords b.events b.packChunks
    obtain ⟨ys, hys, hsame'⟩ := ih
    exact ⟨xs ++ ys, decodeStorageRecords_append hxs hys, List.rel_append hsame hsame'⟩

private theorem nodupKeys_writtenEvents (batches : List Batch) :
    ∀ y ∈ writtenEvents batches, y.NodupKeys := by
  intro y hy
  obtain ⟨b, -, hb⟩ := List.mem_flatMap.mp hy
  exact nodupKeys_of_mem_json y hb

/-- **Crash recovery at any byte.** What a crash leaves of a log, its header line included, is a
number of complete records and a piece without a newline. The scan succeeds; it returns the events
of just these records, a prefix of those written; and it names the offset at which they end. Cut off
there and appended to, the log scans to that prefix followed by the new batch. -/
theorem scanLog_of_prefix (header : SessionHeader) (batches : List Batch)
    (hseq : ContiguousFrom 0 (writtenEvents batches)) (buffer : List UInt8)
    (hbuffer : buffer <+: logBytes header batches) (hheader : headerRecord header <+: buffer) :
    ∃ (complete : List Json) (rest : List UInt8) (scan : SessionLogScan),
      complete <+: batches.flatMap Batch.records ∧ lfByte ∉ rest ∧
      buffer = headerRecord header ++ recordLines complete ++ rest ∧
      scanLog buffer = .ok scan ∧ scan.header = headerMeta header ∧
      decodeStorageRecords complete = .ok scan.events ∧
      List.Forall₂ Json.SameValue scan.events
        ((writtenEvents batches).take scan.events.length) ∧
      scan.committedBytes = (headerRecord header ++ recordLines complete).length ∧
      ∀ batch : Batch,
        ContiguousFrom scan.events.length (batch.events.map SessionEvent.json) →
        ∃ rescan appended,
          scanLog (buffer.take scan.committedBytes ++ batch.bytes) = .ok rescan ∧
          rescan.header = scan.header ∧ rescan.events = scan.events ++ appended ∧
          List.Forall₂ Json.SameValue appended (batch.events.map SessionEvent.json) ∧
          rescan.committedBytes = scan.committedBytes + batch.bytes.length := by
  obtain ⟨body, rfl⟩ := hheader
  -- The body is a prefix of the framed records.
  have hbody : body <+: frame lfByte ((batches.flatMap Batch.records).map recordLine) := by
    rw [logBytes, List.prefix_append_right_inj, flatMap_bytes_eq] at hbuffer
    exact hbuffer
  have hclean : ∀ l ∈ (batches.flatMap Batch.records).map recordLine, lfByte ∉ l := by
    intro l hl
    obtain ⟨r, -, rfl⟩ := List.mem_map.mp hl
    exact lfByte_not_mem_recordLine r
  obtain ⟨k, rest, hsplit, hrest⟩ := exists_take_of_prefix hclean hbody
  rw [← List.map_take] at hsplit
  set complete := (batches.flatMap Batch.records).take k with hcomplete
  have hpre : complete <+: batches.flatMap Batch.records := List.take_prefix _ _
  have hwf : ∀ r ∈ complete, r.WF := fun r hr ↦ wf_records batches r (hpre.subset hr)
  -- The complete records decode to a prefix of what all of them decode to.
  obtain ⟨all, hall, hsame⟩ := exists_decode_records batches
  have hcontig := ContiguousFrom.of_sameValue hsame hseq (nodupKeys_writtenEvents batches)
  obtain ⟨decoded, remaining, hd, -, rfl⟩ : ∃ us ws, decodeStorageRecords complete = .ok us ∧
      decodeStorageRecords ((batches.flatMap Batch.records).drop k) = .ok ws ∧
      all = us ++ ws := by
    refine exists_decode_of_append ?_
    rw [hcomplete, List.take_append_drop]
    exact hall
  rw [contiguousFrom_append] at hcontig
  have htake : List.Forall₂ Json.SameValue decoded
      ((writtenEvents batches).take decoded.length) := by
    have := List.forall₂_take decoded.length hsame
    rwa [List.take_left] at this
  refine ⟨complete, rest, ⟨headerMeta header, decoded,
    (headerRecord header ++ recordLines complete).length⟩, hpre, hrest, ?_, ?_, rfl, hd, htake, rfl,
    fun batch hbatch ↦ ?_⟩
  · rw [hsplit, List.append_assoc]
    rfl
  · rw [hsplit, ← List.append_assoc]
    exact scanLog_records header hwf hd hcontig.1 hrest
  · obtain ⟨appended, happ, hsame_app⟩ := exists_decode_storageRecords batch.events batch.packChunks
    have hcontig_app := ContiguousFrom.of_sameValue hsame_app hbatch nodupKeys_of_mem_json
    have hwf_app : ∀ r ∈ complete ++ batch.records, r.WF := fun r hr ↦
      (List.mem_append.mp hr).elim (hwf r) (wf_storageRecords batch.events batch.packChunks r)
    have hrescan := scanLog_records header hwf_app (decodeStorageRecords_append hd happ)
      (contiguousFrom_append.mpr ⟨hcontig.1, by simpa using hcontig_app⟩) List.not_mem_nil
    refine ⟨⟨headerMeta header, decoded ++ appended,
      (headerRecord header ++ recordLines (complete ++ batch.records)).length⟩, appended, ?_, rfl,
      rfl, hsame_app, ?_⟩
    · have hcut : (headerRecord header ++ frame lfByte (complete.map recordLine) ++ rest).take
          (headerRecord header ++ recordLines complete).length
          = headerRecord header ++ recordLines complete := List.take_left' rfl
      rw [List.append_nil] at hrescan
      rw [hsplit, ← List.append_assoc, hcut, batch.bytes_eq, List.append_assoc,
        ← recordLines_append]
      exact hrescan
    · rw [batch.bytes_eq, recordLines_append, ← List.append_assoc, List.length_append]

/-- A packed batch and a plain one, cut inside the second. -/
theorem scanLog_of_prefix_torn : ∃ scan,
    scanLog (headerRecord (.topLevel "s" ⟨0, by decide⟩) ++ ([
        ⟨[.textDelta 0 10 "a", .textDelta 1 9 "b", .textDelta 2 11 "c"], true, by simp⟩,
        ⟨[.textDelta 3 12 "d"], false, by simp⟩].flatMap Batch.bytes).take 140) = .ok scan ∧
      List.Forall₂ Json.SameValue scan.events ((writtenEvents [
        ⟨[.textDelta 0 10 "a", .textDelta 1 9 "b", .textDelta 2 11 "c"], true, by simp⟩,
        ⟨[.textDelta 3 12 "d"], false, by simp⟩]).take scan.events.length) := by
  have hrecover := scanLog_of_prefix (.topLevel "s" ⟨0, by decide⟩) [
      ⟨[.textDelta 0 10 "a", .textDelta 1 9 "b", .textDelta 2 11 "c"], true, by simp⟩,
      ⟨[.textDelta 3 12 "d"], false, by simp⟩] ⟨rfl, rfl, rfl, rfl, trivial⟩ _
    ((List.prefix_append_right_inj _).mpr (List.take_prefix 140 _)) (List.prefix_append _ _)
  obtain ⟨-, -, scan, -, -, -, hscan, -, -, hsame, -, -⟩ := hrecover
  exact ⟨scan, hscan, hsame⟩

end XxAgent.Jsonl
