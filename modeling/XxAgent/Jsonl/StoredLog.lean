import XxAgent.Jsonl.Recovery

/-!
# Reading a stored log

The file of a session is plaintext, or a sequence of compressed frames the first of which is the
header line. Either way its text goes through one scanner, so what is read is numbered from zero.

Compression itself is not modelled: a compressed log is given by the plaintext of its frames.
-/

namespace XxAgent.Jsonl

open Ecma

/-- The file of a session. -/
inductive LogFile where
  /-- Uncompressed. -/
  | plain (buffer : List UInt8)
  /-- The plaintext of the complete frames, and what a torn final frame still yields. -/
  | zstd (frames : List (List UInt8)) (torn : Option (List UInt8))

/-- Why a file cannot be read. -/
inductive FileError where
  /-- The text is no session log. -/
  | log (e : LogError)
  /-- No complete frame. -/
  | emptyZstd
  /-- The first frame is not one line. -/
  | headerFrame
  /-- A complete frame ends inside a record. -/
  | tornFrame

/-- The message of an error. -/
def FileError.message : FileError → JsString
  | log e => e.message
  | emptyZstd => js "empty or header-less Zstandard session log"
  | headerFrame => js "corrupt Zstandard session log: first frame is not exactly one header line"
  | tornFrame => js "corrupt Zstandard session log: complete frame contains a torn JSONL record"

/-- `scanner.write(plaintext)`, frame after frame. -/
def SessionLogScanner.writeFrames (s : SessionLogScanner) :
    List (List UInt8) → Except LogError SessionLogScanner
  | [] => .ok s
  | plaintext :: rest =>
    match s.write plaintext with
    | .error e => .error e
    | .ok s => writeFrames s rest

/-- Decode complete frames and retain complete records from a torn final frame. -/
def readZstdPrefix (frames : List (List UInt8)) (torn : Option (List UInt8)) :
    Except FileError SessionLogScan :=
  match frames with
  | [] => .error .emptyZstd
  | headerFrame :: rest =>
    if headerFrame = [] ∨ headerFrame.idxOf lfByte + 1 ≠ headerFrame.length then
      .error .headerFrame
    else
      match SessionLogScanner.create headerFrame with
      | .error e => .error (.log e)
      | .ok scanner =>
        match scanner.writeFrames rest with
        | .error e => .error (.log e)
        | .ok complete =>
          if complete.committedBytes ≠ complete.inputBytes then .error .tornFrame
          else
            match torn with
            | none => .ok complete.finish
            | some recoveredPlaintext =>
              match complete.write recoveredPlaintext with
              | .error e => .error (.log e)
              | .ok recovered => .ok recovered.finish

/-- Read a session's stored prefix. -/
def readPrefix : LogFile → Except FileError SessionLogScan
  | .plain buffer =>
    match scanLog buffer with
    | .error e => .error (.log e)
    | .ok scan => .ok scan
  | .zstd frames torn => readZstdPrefix frames torn

/-! ## The scanner numbers what it keeps -/

theorem contiguousFrom_pushDecoded {decoded : List Json} : ∀ {events result : List Json},
    ContiguousFrom 0 events → pushDecoded events decoded = .ok (.inl result) →
      ContiguousFrom 0 result := by
  induction decoded with
  | nil =>
    intro events result h hpush
    rw [pushDecoded] at hpush
    exact Sum.inl.inj (Except.ok.inj hpush) ▸ h
  | cons event rest ih =>
    intro events result h hpush
    rw [pushDecoded] at hpush
    split_ifs at hpush with hnull hseq
    · simp at hpush
    · have hone : ContiguousFrom (0 + events.length) [event] := by
        rw [Nat.zero_add]
        exact ⟨not_not.mp hseq, trivial⟩
      exact ih (contiguousFrom_append.mpr ⟨h, hone⟩) hpush

namespace SessionLogScanner

private theorem contiguous_raiseIfTurnEnd {s t : SessionLogScanner} {issue : LogError}
    {decoded : List Json} (h : s.raiseIfTurnEnd issue decoded = .ok t) : t = s := by
  rw [raiseIfTurnEnd] at h
  cases hs : someTurnEnd decoded with
  | error e => simp [hs] at h
  | ok b => cases b <;> simp [hs] at h; exact h.symm

/-- One line keeps the numbering. -/
theorem contiguous_consumeEventLine {s t : SessionLogScanner} {line : List UInt8} {endByte : ℕ}
    (hs : ContiguousFrom 0 s.events) (h : s.consumeEventLine line endByte = .ok t) :
    ContiguousFrom 0 t.events := by
  rw [consumeEventLine] at h
  cases hd : decodeLine line with
  | none =>
    simp only [hd] at h
    obtain rfl := Except.ok.inj h
    exact hs
  | some decoded =>
    simp only [hd] at h
    cases hi : s.issue with
    | some issue =>
      simp only [hi] at h
      obtain rfl := contiguous_raiseIfTurnEnd h
      exact hs
    | none =>
      simp only [hi] at h
      cases hp : pushDecoded s.events decoded with
      | error e => simp [hp] at h
      | ok r =>
        cases r with
        | inl events =>
          simp only [hp] at h
          obtain rfl := Except.ok.inj h
          exact contiguousFrom_pushDecoded hs hp
        | inr gap =>
          simp only [hp] at h
          obtain rfl := contiguous_raiseIfTurnEnd h
          exact hs

/-- A run over bytes keeps it. -/
theorem contiguous_writeFrom (chunk : List UInt8) : ∀ {s t : SessionLogScanner}
    {fragment : List UInt8} {position : ℕ}, ContiguousFrom 0 s.events →
      s.writeFrom fragment position chunk = .ok t → ContiguousFrom 0 t.events := by
  induction chunk with
  | nil =>
    intro s t fragment position hs h
    rw [writeFrom] at h
    obtain rfl := Except.ok.inj h
    split_ifs <;> exact hs
  | cons b rest ih =>
    intro s t fragment position hs h
    rw [writeFrom] at h
    split_ifs at h
    · cases hc : consumeEventLine { s with fragments := [] } (s.fragments.flatten ++ fragment)
          (position + 1) with
      | error e => simp [hc] at h
      | ok u =>
        simp only [hc] at h
        exact ih (contiguous_consumeEventLine (s := { s with fragments := [] }) hs hc) h
    · exact ih hs h

theorem contiguous_write {s t : SessionLogScanner} {chunk : List UInt8}
    (hs : ContiguousFrom 0 s.events) (h : s.write chunk = .ok t) : ContiguousFrom 0 t.events :=
  contiguous_writeFrom chunk (s := { s with inputBytes := s.inputBytes + chunk.length }) hs h

theorem contiguous_writeFrames (frames : List (List UInt8)) : ∀ {s t : SessionLogScanner},
    ContiguousFrom 0 s.events → s.writeFrames frames = .ok t → ContiguousFrom 0 t.events := by
  induction frames with
  | nil =>
    intro s t hs h
    exact Except.ok.inj h ▸ hs
  | cons plaintext rest ih =>
    intro s t hs h
    rw [writeFrames] at h
    cases hw : s.write plaintext with
    | error e => simp [hw] at h
    | ok u =>
      simp only [hw] at h
      exact ih (contiguous_write hs hw) h

theorem create_events {record : List UInt8} {s : SessionLogScanner} (h : create record = .ok s) :
    s.events = [] := by
  rw [create] at h
  cases hp : parseHeaderRecord record with
  | error e => simp [hp] at h
  | ok parsed =>
    simp only [hp] at h
    exact (Except.ok.inj h) ▸ rfl

end SessionLogScanner

theorem contiguous_scanLog {buffer : List UInt8} {scan : SessionLogScan}
    (h : scanLog buffer = .ok scan) : ContiguousFrom 0 scan.events := by
  rw [scanLog] at h
  split_ifs at h
  dsimp only at h
  cases hc : SessionLogScanner.create (buffer.take (buffer.idxOf lfByte + 1)) with
  | error e => simp [hc] at h
  | ok s =>
    simp only [hc] at h
    cases hw : s.write (buffer.drop (buffer.idxOf lfByte + 1)) with
    | error e => simp [hw] at h
    | ok t =>
      simp only [hw] at h
      have hstart : ContiguousFrom 0 s.events := by
        rw [SessionLogScanner.create_events hc]
        trivial
      exact Except.ok.inj h ▸ SessionLogScanner.contiguous_write hstart hw

/-- **What is read of a file is numbered from zero.** -/
theorem contiguous_readPrefix {file : LogFile} {scan : SessionLogScan}
    (h : readPrefix file = .ok scan) : ContiguousFrom 0 scan.events := by
  cases file with
  | plain buffer =>
    rw [readPrefix] at h
    cases hs : scanLog buffer with
    | error e => simp [hs] at h
    | ok found =>
      simp only [hs] at h
      exact Except.ok.inj h ▸ contiguous_scanLog hs
  | zstd frames torn =>
    cases frames with
    | nil => cases h
    | cons headerFrame rest =>
      rw [readPrefix, readZstdPrefix] at h
      split_ifs at h
      cases hc : SessionLogScanner.create headerFrame with
      | error e => simp [hc] at h
      | ok s =>
        have hstart : ContiguousFrom 0 s.events := by
          rw [SessionLogScanner.create_events hc]
          trivial
        simp only [hc] at h
        cases hw : s.writeFrames rest with
        | error e => simp [hw] at h
        | ok complete =>
          have hcomplete := SessionLogScanner.contiguous_writeFrames rest hstart hw
          simp only [hw] at h
          split_ifs at h
          cases torn with
          | none => exact Except.ok.inj h ▸ hcomplete
          | some plaintext =>
            cases hr : complete.write plaintext with
            | error e => simp [hr] at h
            | ok recovered =>
              simp only [hr] at h
              exact Except.ok.inj h ▸ SessionLogScanner.contiguous_write hcomplete hr

/-! ## Reading what was written -/

/-- The file that a sequence of appends leaves; a compressed one has a frame for each of them. -/
def writtenFile (header : SessionHeader) (batches : List Batch) (compressed : Bool) : LogFile :=
  if compressed then .zstd (headerRecord header :: batches.map Batch.bytes) none
  else .plain (logBytes header batches)

end XxAgent.Jsonl
