import XxAgent.Ecma.IndexOf
import XxAgent.Ecma.JsonText
import XxAgent.Ecma.StringMethods
import XxAgent.Log.Incremental

/-!
# LSP base-protocol framing

A message is its length in a header, a separator and its JSON in UTF-8. The decoder buffers the
bytes that have come, bounds the header and the body, and yields the bodies that are complete.
-/

namespace XxAgent.Lsp

open Ecma Incremental

/-! ## Encoding -/

/-- The header/body separator in the LSP base protocol. -/
def HEADER_SEPARATOR : List UInt8 := [0x0D, 0x0A, 0x0D, 0x0A]

/-- Cap on the header section. -/
def MAX_HEADER_BYTES : ℕ := 65536

/-- Why `push` throws. -/
inductive FramingFault where
  /-- `LSP header exceeded … bytes without a terminator` -/
  | unterminated
  /-- `LSP header exceeded … bytes` -/
  | headerTooLong
  /-- `invalid Content-Length header` -/
  | invalidLength (line : JsString)
  /-- `LSP header block missing Content-Length` -/
  | missingLength (headerText : JsString)
  /-- `LSP message length … exceeds the …-byte limit` -/
  | bodyTooLong (length limit : ℕ)
  /-- `LSP message body was not valid JSON` -/
  | invalidJson

/-- `buffer.toString('ascii')`: the highest bit is dropped. -/
def asciiText (bytes : List UInt8) : JsString := bytes.map fun b ↦ UInt16.ofNat (b.toNat % 128)

/-- `s.split('\r\n')` -/
def splitLines : JsString → List JsString
  | [] => [[]]
  | [u] => [[u]]
  | u :: v :: rest =>
    if u = 0x0D ∧ v = 0x0A then [] :: splitLines rest
    else
      match splitLines (v :: rest) with
      | [] => [[u]]
      | line :: lines => (u :: line) :: lines

/-- The lower case of an ASCII letter. -/
def lowerUnit (u : UInt16) : UInt16 :=
  if 0x41 ≤ u.toNat ∧ u.toNat ≤ 0x5A then UInt16.ofNat (u.toNat + 0x20) else u

/-- The loop of `parseContentLength`, over the lines that are left. -/
def contentLengthOf (headerText : JsString) : List JsString → Except FramingFault ℕ
  | [] => .error (.missingLength headerText)
  | line :: lines =>
    if colon ∉ line then contentLengthOf headerText lines
    else
      let name := line.takeWhile (· ≠ colon)
      if (trim name).map lowerUnit ≠ js "content-length" then contentLengthOf headerText lines
      else
        match (toNumber (trim (line.drop (name.length + 1)))).bind (·.toInt?) with
        | some (Int.ofNat n) => .ok n
        | _ => .error (.invalidLength line)

/-- `parseContentLength` -/
def parseContentLength (headerText : JsString) : Except FramingFault ℕ :=
  contentLengthOf headerText (splitLines headerText)

/-- `next` -/
def next (maxMessageBytes : ℕ) (buffer : List UInt8) : Step UInt8 Json FramingFault :=
  match indexOf HEADER_SEPARATOR buffer with
  | none => if MAX_HEADER_BYTES < buffer.length then .fail .unterminated else .wait
  | some separator =>
    if MAX_HEADER_BYTES < separator then .fail .headerTooLong
    else
      match parseContentLength (asciiText (buffer.take separator)) with
      | .error fault => .fail fault
      | .ok contentLength =>
        if maxMessageBytes < contentLength then
          .fail (.bodyTooLong contentLength maxMessageBytes)
        else
          let bodyStart := separator + HEADER_SEPARATOR.length
          let bodyEnd := bodyStart + contentLength
          if buffer.length < bodyEnd then .wait
          else
            match parse (decodeUtf8 ((buffer.drop bodyStart).take contentLength)) with
            | some message => .ready message (buffer.drop bodyEnd)
            | none => .fail .invalidJson

/-! ## Frames -/

variable {maxMessageBytes : ℕ}

/-- What the decoder makes of a buffer whose header is complete, by the header and what follows. -/
def nextBody (maxMessageBytes : ℕ) (header rest : List UInt8) : Step UInt8 Json FramingFault :=
  match parseContentLength (asciiText header) with
  | .error fault => .fail fault
  | .ok contentLength =>
    if maxMessageBytes < contentLength then .fail (.bodyTooLong contentLength maxMessageBytes)
    else if rest.length < contentLength then .wait
    else
      match parse (decodeUtf8 (rest.take contentLength)) with
      | some message => .ready message (rest.drop contentLength)
      | none => .fail .invalidJson

/-- The first separator of a buffer stands behind this header. -/
def Headed (buffer header rest : List UInt8) : Prop :=
  buffer = header ++ (HEADER_SEPARATOR ++ rest) ∧
    indexOf HEADER_SEPARATOR buffer = some header.length

theorem exists_headed {buffer : List UInt8} {separator : ℕ}
    (h : indexOf HEADER_SEPARATOR buffer = some separator) :
    ∃ header rest, Headed buffer header rest ∧ header.length = separator := by
  have hocc := (indexOf_eq_some_iff.mp h).1
  have hlength : (buffer.take separator).length = separator := by
    rw [List.length_take, Nat.min_eq_left hocc.1]
  refine ⟨buffer.take separator, buffer.drop (separator + HEADER_SEPARATOR.length), ⟨?_, ?_⟩,
    hlength⟩
  · rw [← List.append_assoc]
    exact hocc.eq_append
  · rw [hlength, h]

/-- The decoder goes by the first separator. -/
theorem next_of_headed {buffer header rest : List UInt8} (h : Headed buffer header rest) :
    next maxMessageBytes buffer
      = if MAX_HEADER_BYTES < header.length then .fail .headerTooLong
        else nextBody maxMessageBytes header rest := by
  obtain ⟨hbuffer, hindex⟩ := h
  have htake : buffer.take header.length = header := by rw [hbuffer, List.take_left]
  have hdrop (n : ℕ) : buffer.drop (header.length + HEADER_SEPARATOR.length + n) = rest.drop n := by
    rw [hbuffer, Nat.add_assoc, ← List.drop_drop, List.drop_left, ← List.drop_drop, List.drop_left]
  have hlength : buffer.length = header.length + HEADER_SEPARATOR.length + rest.length := by
    rw [hbuffer, List.length_append, List.length_append]
    omega
  rw [next, hindex]
  simp only [htake]
  rw [nextBody]
  split_ifs with hlong
  · rfl
  · rcases parseContentLength (asciiText header) with fault | contentLength
    · rfl
    · have hstart := hdrop 0
      rw [Nat.add_zero, List.drop_zero] at hstart
      simp only [hdrop, hstart, hlength, Nat.add_lt_add_iff_left]

theorem next_of_unheaded {buffer : List UInt8}
    (h : indexOf HEADER_SEPARATOR buffer = none) :
    next maxMessageBytes buffer
      = if MAX_HEADER_BYTES < buffer.length then .fail .unterminated else .wait := by
  rw [next, h]

theorem Headed.append {buffer header rest : List UInt8} (h : Headed buffer header rest)
    (t : List UInt8) : Headed (buffer ++ t) header (rest ++ t) := by
  obtain ⟨hbuffer, hindex⟩ := h
  refine ⟨?_, indexOf_append hindex t⟩
  rw [hbuffer]
  simp only [List.append_assoc]

/-- A complete body is read as a whole, and nothing behind it. -/
theorem nextBody_eq_ready {header rest tail : List UInt8} {message : Json}
    (h : nextBody maxMessageBytes header rest = .ready message tail) :
    ∃ body, rest = body ++ tail ∧ parseContentLength (asciiText header) = .ok body.length ∧
      body.length ≤ maxMessageBytes ∧ parse (decodeUtf8 body) = some message := by
  rw [nextBody] at h
  rcases hlength : parseContentLength (asciiText header) with fault | contentLength
  · rw [hlength] at h
    cases h
  · rw [hlength] at h
    simp only at h
    split_ifs at h with hlong hshort
    rcases hparse : parse (decodeUtf8 (rest.take contentLength)) with _ | found
    · rw [hparse] at h
      cases h
    · rw [hparse] at h
      cases h
      have hbody : (rest.take contentLength).length = contentLength := by
        rw [List.length_take, Nat.min_eq_left (Nat.le_of_not_lt hshort)]
      exact ⟨rest.take contentLength, (List.take_append_drop _ _).symm, by rw [hbody],
        by rw [hbody]; exact Nat.le_of_not_lt hlong, hparse⟩

theorem nextBody_of_body {header body tail : List UInt8} {message : Json}
    (hlength : parseContentLength (asciiText header) = .ok body.length)
    (hlimit : body.length ≤ maxMessageBytes) (hparse : parse (decodeUtf8 body) = some message) :
    nextBody maxMessageBytes header (body ++ tail) = .ready message tail := by
  rw [nextBody, hlength]
  simp only
  rw [if_neg (Nat.not_lt.mpr hlimit), if_neg (by rw [List.length_append]; omega), List.take_left,
    hparse, List.drop_left]

/-- A message is a header that is not too long, the separator and a body. -/
theorem next_eq_ready {buffer tail : List UInt8} {message : Json}
    (h : next maxMessageBytes buffer = .ready message tail) :
    ∃ header body, Headed buffer header (body ++ tail) ∧ header.length ≤ MAX_HEADER_BYTES ∧
      parseContentLength (asciiText header) = .ok body.length ∧
      body.length ≤ maxMessageBytes ∧ parse (decodeUtf8 body) = some message := by
  rcases hindex : indexOf HEADER_SEPARATOR buffer with _ | separator
  · rw [next_of_unheaded hindex] at h
    split_ifs at h
  · obtain ⟨header, rest, hheaded, -⟩ := exists_headed hindex
    rw [next_of_headed hheaded] at h
    split_ifs at h with hlong
    obtain ⟨body, rfl, hlength, hlimit, hparse⟩ := nextBody_eq_ready h
    exact ⟨header, body, hheaded, Nat.le_of_not_lt hlong, hlength, hlimit, hparse⟩

theorem next_of_frame {buffer header body tail : List UInt8} {message : Json}
    (hheaded : Headed buffer header (body ++ tail)) (hheader : header.length ≤ MAX_HEADER_BYTES)
    (hlength : parseContentLength (asciiText header) = .ok body.length)
    (hlimit : body.length ≤ maxMessageBytes) (hparse : parse (decodeUtf8 body) = some message) :
    next maxMessageBytes buffer = .ready message tail := by
  rw [next_of_headed hheaded, if_neg (Nat.not_lt.mpr hheader),
    nextBody_of_body hlength hlimit hparse]

/-- `MessageDecoder`, by the buffer that it keeps between calls of `push`. -/
def messageDecoder (maxMessageBytes : ℕ) : Incremental.Reader UInt8 Json FramingFault where
  next := next maxMessageBytes
  shorter {s m r} h := by
    obtain ⟨header, body, ⟨hbuffer, -⟩, -⟩ := next_eq_ready h
    rw [hbuffer]
    simp only [List.length_append, HEADER_SEPARATOR, List.length_cons]
    omega
  append {s m r} t h := by
    obtain ⟨header, body, hheaded, hheader, hlength, hlimit, hparse⟩ := next_eq_ready h
    have hlonger := hheaded.append t
    rw [List.append_assoc] at hlonger
    exact next_of_frame hlonger hheader hlength hlimit hparse
  nil := rfl

/-!
## Chunks of a framed stream

Whatever the messages, their frames are decoded in any chunks. Of other streams this is so exactly
when the very first frame is refused, or when no frame is refused and every header leaves room for
the separator below its limit: bodies that were decoded in the call that throws are lost with it,
and a header that ends just below its limit is refused when a chunk ends inside the separator.
-/

/-! ## Frames of messages -/

/-- The largest size of a buffer. -/
def MAX_BUFFER_BYTES : ℕ := 2 ^ 53 - 1

/-- The message is a value of JSON whose text is within the size limit. -/
structure Fits (maxMessageBytes : ℕ) (message : Json) : Prop where
  wf : message.WF
  limit : (encodeUtf8 (stringify message)).length ≤ maxMessageBytes
  buffer : (encodeUtf8 (stringify message)).length ≤ MAX_BUFFER_BYTES

theorem Fits.parse {message : Json} (h : Fits maxMessageBytes message) :
    Ecma.parse (decodeUtf8 (encodeUtf8 (stringify message))) = some message := by
  rw [decodeUtf8_encodeUtf8 (lineText_stringify message).wellFormed, parse_stringify h.wf]

/-- Complete frames and the beginning of one more, where every header leaves room for the separator
below its limit. -/
inductive WellFramed (maxMessageBytes : ℕ) : List UInt8 → Prop
  | unterminated {s : List UInt8} (hnone : indexOf HEADER_SEPARATOR s = none)
      (hheader : s.length ≤ MAX_HEADER_BYTES) : WellFramed maxMessageBytes s
  | unfinished {s header rest : List UInt8} {contentLength : ℕ} (hheaded : Headed s header rest)
      (hheader : header.length + 3 ≤ MAX_HEADER_BYTES)
      (hlength : parseContentLength (asciiText header) = .ok contentLength)
      (hlimit : contentLength ≤ maxMessageBytes) (hshort : rest.length < contentLength) :
      WellFramed maxMessageBytes s
  | frame {s header body tail : List UInt8} {message : Json}
      (hheaded : Headed s header (body ++ tail)) (hheader : header.length + 3 ≤ MAX_HEADER_BYTES)
      (hlength : parseContentLength (asciiText header) = .ok body.length)
      (hlimit : body.length ≤ maxMessageBytes) (hparse : parse (decodeUtf8 body) = some message)
      (htail : WellFramed maxMessageBytes tail) : WellFramed maxMessageBytes s

/-- A part of a header and its separator that ends before the header's limit waits. -/
theorem next_of_part {p q header rest : List UInt8} (hheaded : Headed (p ++ q) header rest)
    (hheader : header.length + 3 ≤ MAX_HEADER_BYTES) (hnone : indexOf HEADER_SEPARATOR p = none) :
    (messageDecoder maxMessageBytes).next p = .wait := by
  have hlength : p.length ≤ header.length + 3 := by
    by_contra hlong
    have hfound := indexOf_of_append hheaded.2 (by
      simp only [HEADER_SEPARATOR, List.length_cons, List.length_nil]
      omega)
    rw [hnone] at hfound
    simp at hfound
  change next maxMessageBytes p = .wait
  rw [next_of_unheaded hnone, if_neg (by omega)]

/-- A part of a stream that holds the whole header. -/
theorem headed_of_part {p q header rest : List UInt8} {separator : ℕ}
    (hheaded : Headed (p ++ q) header rest) (hfound : indexOf HEADER_SEPARATOR p = some separator) :
    ∃ rest', Headed p header rest' ∧ rest = rest' ++ q := by
  obtain ⟨header', rest', hpart, -⟩ := exists_headed hfound
  have hwhole := hpart.append q
  have hlength : header'.length = header.length :=
    Option.some.inj (hwhole.2.symm.trans hheaded.2)
  obtain ⟨rfl, hrest⟩ := List.append_inj (hwhole.1.symm.trans hheaded.1) hlength
  exact ⟨rest', hpart, (List.append_cancel_left hrest).symm⟩

/-- **No chunk of a well-framed stream makes the decoder throw.** -/
theorem WellFramed.calm {s : List UInt8} (h : WellFramed maxMessageBytes s) :
    (messageDecoder maxMessageBytes).Calm s := by
  induction h with
  | unterminated hnone hheader =>
    rintro p q rfl
    have hpart : indexOf HEADER_SEPARATOR p = none := by
      by_contra hne
      obtain ⟨separator, hfound⟩ := Option.ne_none_iff_exists'.mp hne
      rw [indexOf_append hfound q] at hnone
      simp at hnone
    have hwait : (messageDecoder maxMessageBytes).next p = .wait := by
      change next maxMessageBytes p = .wait
      rw [List.length_append] at hheader
      rw [next_of_unheaded hpart, if_neg (by omega)]
    exact ⟨_, _, Reader.drain_of_wait hwait⟩
  | unfinished hheaded hheader hlength hlimit hshort =>
    rintro p q rfl
    rcases hfound : indexOf HEADER_SEPARATOR p with _ | separator
    · exact ⟨_, _, Reader.drain_of_wait (next_of_part hheaded hheader hfound)⟩
    · obtain ⟨rest', hpart, rfl⟩ := headed_of_part hheaded hfound
      have hwait : (messageDecoder maxMessageBytes).next p = .wait := by
        change next maxMessageBytes p = .wait
        rw [List.length_append] at hshort
        rw [next_of_headed hpart, if_neg (by omega), nextBody, hlength]
        simp only
        rw [if_neg (Nat.not_lt.mpr hlimit), if_pos (by omega)]
      exact ⟨_, _, Reader.drain_of_wait hwait⟩
  | @frame s header body tail message hheaded hheader hlength hlimit hparse htail ih =>
    rintro p q rfl
    rcases hfound : indexOf HEADER_SEPARATOR p with _ | separator
    · exact ⟨_, _, Reader.drain_of_wait (next_of_part hheaded hheader hfound)⟩
    · obtain ⟨rest', hpart, hrest⟩ := headed_of_part hheaded hfound
      rcases Nat.lt_or_ge rest'.length body.length with hlt | hge
      · have hwait : (messageDecoder maxMessageBytes).next p = .wait := by
          change next maxMessageBytes p = .wait
          rw [next_of_headed hpart, if_neg (by omega), nextBody, hlength]
          simp only
          rw [if_neg (Nat.not_lt.mpr hlimit), if_pos hlt]
        exact ⟨_, _, Reader.drain_of_wait hwait⟩
      · obtain ⟨tail', rfl⟩ : body <+: rest' :=
          List.prefix_of_prefix_length_le ⟨tail, hrest⟩ ⟨q, rfl⟩ hge
        rw [List.append_assoc] at hrest
        obtain ⟨messages, left, hdrain⟩ := ih tail' q (List.append_cancel_left hrest)
        have hready : (messageDecoder maxMessageBytes).next p = .ready message tail' :=
          next_of_frame hpart (by omega) hlength hlimit hparse
        exact ⟨_, left, by rw [Reader.drain_of_ready hready, hdrain]⟩

/-- A well-framed stream is decoded as a whole, in any chunks. -/
theorem WellFramed.feed {stream : List UInt8} (h : WellFramed maxMessageBytes stream)
    {chunks : List (List UInt8)} (hchunks : chunks.flatten = stream) :
    (messageDecoder maxMessageBytes).feed [] chunks
      = (messageDecoder maxMessageBytes).drain stream := by
  have hempty := Reader.drain_of_wait (messageDecoder maxMessageBytes).nil
  have hcalm : (messageDecoder maxMessageBytes).Calm ([] ++ chunks.flatten) := by
    rw [List.nil_append, hchunks]
    exact h.calm
  obtain ⟨messages, left, hfed⟩ := Reader.feed_of_calm hcalm hempty
  rw [hfed, ← Reader.drain_of_feed (messageDecoder maxMessageBytes).nil hfed, List.nil_append,
    hchunks]

end XxAgent.Lsp
