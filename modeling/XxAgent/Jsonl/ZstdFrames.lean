import XxAgent.Log.Reader
import XxAgent.Jsonl.StoredLog

/-!
# The frames of a compressed log

A compressed log is a run of Zstandard frames, and the file may end inside the last one. The scan
finds the frames without decompressing them: it reads the magic, the descriptor, as many header
bytes as the descriptor says, blocks up to the last one and the checksum. What it returns is what
the file was written from (`scanFrom_frames`), so the offset a torn file is cut at is the end of its
last complete frame.

A frame is a value that carries its own well-formedness; only its structure matters here, not what
its blocks hold.
-/

namespace XxAgent.Jsonl

open Reader (Outcome Reads Takes require entry skip take)

/-- Why a scan rejects, and at which byte. -/
inductive ZstdScanError where
  | invalidMagic (offset : ℕ)
  | reservedHeaderBit (offset : ℕ)
  | reservedBlockType (offset : ℕ)

/-- The message of an error. -/
def ZstdScanError.message : ZstdScanError → String
  | invalidMagic offset =>
    "corrupt Zstandard session log: invalid frame magic at byte " ++ toString offset
  | reservedHeaderBit offset =>
    "corrupt Zstandard session log: reserved frame-header bit at byte " ++ toString offset
  | reservedBlockType offset =>
    "corrupt Zstandard session log: reserved block type at byte " ++ toString offset

/-- Byte range occupied by one structurally complete frame. -/
structure ZstdFrameRange where
  start : ℕ
  stop : ℕ
deriving DecidableEq

/-- The complete frames in file order, and the start of an incomplete final frame. -/
structure ZstdFrameScan where
  frames : List ZstdFrameRange
  tornStart : Option ℕ
deriving DecidableEq

/-- `buffer.readUIntLE`. -/
def readUIntLE : List UInt8 → ℕ
  | [] => 0
  | b :: rest => b.toNat + 256 * readUIntLE rest

def ZSTD_MAGIC : ℕ := 0xFD2FB528

/-! ## The descriptor and the block header -/

def reservedBits (descriptor : UInt8) : ℕ := descriptor.toNat &&& 0x18

def singleSegment (descriptor : UInt8) : Bool := descriptor.toNat &&& 0x20 ≠ 0

def hasChecksum (descriptor : UInt8) : Bool := descriptor.toNat &&& 0x04 ≠ 0

def dictionaryBytes (descriptor : UInt8) : ℕ :=
  let dictionaryFlag := descriptor.toNat &&& 0x03
  if dictionaryFlag = 3 then 4 else dictionaryFlag

def contentSizeBytes (descriptor : UInt8) : ℕ :=
  let contentSizeFlag := descriptor.toNat >>> 6
  if contentSizeFlag = 0 then if singleSegment descriptor then 1 else 0 else 1 <<< contentSizeFlag

def remainingHeaderBytes (descriptor : UInt8) : ℕ :=
  (if singleSegment descriptor then 0 else 1) + dictionaryBytes descriptor +
    contentSizeBytes descriptor

def isLastBlock (blockHeader : ℕ) : Bool := blockHeader &&& 1 ≠ 0

def blockType (blockHeader : ℕ) : ℕ := (blockHeader >>> 1) &&& 0x03

/-- A block of one repeated byte holds that byte alone. -/
def payloadBytes (blockHeader : ℕ) : ℕ := if blockType blockHeader = 1 then 1 else blockHeader >>> 3

/-! ## The scan -/

abbrev ZstdReader := Reader ZstdScanError UInt8

/-- One block; it says whether it was the last. -/
def scanBlock : ZstdReader Bool := do
  let header ← take 3
  require (blockType (readUIntLE header) ≠ 0x03) fun offset ↦ .reservedBlockType (offset - 3)
  skip (payloadBytes (readUIntLE header))
  pure (isLastBlock (readUIntLE header))

theorem takes_scanBlock : Takes scanBlock 3 :=
  (Reader.takes_take 3).bind fun _ ↦ (Reader.takes_require _ _).bind fun _ ↦
    ((Reader.takes_skip _).bind fun _ ↦ Reader.takes_pure _).mono (Nat.zero_le _)

/-- Blocks up to a last one. -/
def scanBlocks (offset : ℕ) (input : List UInt8) : Outcome ZstdScanError UInt8 Unit :=
  match _h : scanBlock offset input with
  | .torn => .torn
  | .failed e => .failed e
  | .done true offset rest => .done () offset rest
  | .done false offset rest => scanBlocks offset rest
termination_by input.length
decreasing_by
  have := takes_scanBlock _h
  omega

theorem takes_scanBlocks : Takes scanBlocks 0 := by
  intro offset input
  induction offset, input using scanBlocks.induct with
  | case1 offset input hblock =>
    intro b offset' rest h
    rw [scanBlocks, hblock] at h
    exact nomatch h
  | case2 offset input e hblock =>
    intro b offset' rest h
    rw [scanBlocks, hblock] at h
    exact nomatch h
  | case3 offset input next remaining hblock =>
    intro b offset' rest h
    rw [scanBlocks, hblock] at h
    cases h
    have := takes_scanBlock hblock
    omega
  | case4 offset input next remaining hblock ih =>
    intro b offset' rest h
    rw [scanBlocks, hblock] at h
    have hfirst := takes_scanBlock hblock
    have hrest := ih h
    omega

/-- One frame. -/
def scanFrame : ZstdReader Unit := do
  let magic ← take 4
  require (readUIntLE magic = ZSTD_MAGIC) fun offset ↦ .invalidMagic (offset - 4)
  let descriptor ← entry
  require (reservedBits descriptor = 0) fun offset ↦ .reservedHeaderBit (offset - 1)
  skip (remainingHeaderBytes descriptor)
  scanBlocks
  if hasChecksum descriptor then skip 4 else pure ()

theorem takes_scanFrame : Takes scanFrame 4 := by
  refine (Reader.takes_take 4).bind (n := 0) fun magic ↦ ?_
  refine (Reader.takes_require _ _).bind (n := 0) fun _ ↦ ?_
  refine (Reader.takes_entry.mono (Nat.zero_le 1)).bind (n := 0) fun descriptor ↦ ?_
  refine (Reader.takes_require _ _).bind (n := 0) fun _ ↦ ?_
  refine ((Reader.takes_skip _).mono (Nat.zero_le _)).bind (n := 0) fun _ ↦ ?_
  refine takes_scanBlocks.bind (n := 0) fun _ ↦ ?_
  split_ifs
  · exact (Reader.takes_skip 4).mono (Nat.zero_le 4)
  · exact Reader.takes_pure ()

/-- Frames from an offset on, behind those found. -/
def scanFrom (maxFrames : Option ℕ) (frames : List ZstdFrameRange) (offset : ℕ)
    (input : List UInt8) : Except ZstdScanError ZstdFrameScan :=
  if input = [] then .ok ⟨frames, none⟩
  else
    match _h : scanFrame offset input with
    | .torn => .ok ⟨frames, some offset⟩
    | .failed e => .error e
    | .done () stop rest =>
      let frames := frames ++ [⟨offset, stop⟩]
      if some frames.length = maxFrames then .ok ⟨frames, none⟩
      else scanFrom maxFrames frames stop rest
termination_by input.length
decreasing_by
  have := takes_scanFrame _h
  omega

/-- Locate complete frames without decompressing their blocks. -/
def scanZstdFrames (buffer : List UInt8) (maxFrames : Option ℕ) :
    Except ZstdScanError ZstdFrameScan :=
  scanFrom maxFrames [] 0 buffer

/-! ## Well-formed frames -/

/-- A block: three header bytes, and as much payload as they say. -/
structure ZstdBlock where
  header : List UInt8
  payload : List UInt8
  header_length : header.length = 3
  type_ne : blockType (readUIntLE header) ≠ 0x03
  payload_length : payload.length = payloadBytes (readUIntLE header)

def ZstdBlock.bytes (b : ZstdBlock) : List UInt8 := b.header ++ b.payload

def ZstdBlock.isLast (b : ZstdBlock) : Bool := isLastBlock (readUIntLE b.header)

/-- A frame, field by field. -/
structure ZstdFrame where
  magic : List UInt8
  descriptor : UInt8
  header : List UInt8
  blocks : List ZstdBlock
  lastBlock : ZstdBlock
  checksum : List UInt8
  magic_length : magic.length = 4
  magic_eq : readUIntLE magic = ZSTD_MAGIC
  reserved_clear : reservedBits descriptor = 0
  header_length : header.length = remainingHeaderBytes descriptor
  blocks_continue : ∀ b ∈ blocks, b.isLast = false
  lastBlock_isLast : lastBlock.isLast = true
  checksum_length : checksum.length = if hasChecksum descriptor then 4 else 0

def ZstdFrame.blockBytes (f : ZstdFrame) : List UInt8 :=
  f.blocks.flatMap ZstdBlock.bytes ++ f.lastBlock.bytes

def ZstdFrame.bytes (f : ZstdFrame) : List UInt8 :=
  f.magic ++ f.descriptor :: (f.header ++ (f.blockBytes ++ f.checksum))

theorem ZstdFrame.bytes_length (f : ZstdFrame) : 0 < f.bytes.length := by
  rw [bytes, List.length_append, f.magic_length]
  omega

theorem reads_scanBlock (b : ZstdBlock) : Reads scanBlock b.bytes b.isLast := by
  refine (Reads.take b.header_length).bind ?_
  refine (Reads.require b.type_ne _).bind (x := []) ?_
  exact (Reads.skip b.payload_length).bind_pure fun _ ↦ _

/-- Past one block, the scan goes on unless it was the last. -/
theorem scanBlocks_eq : (scanBlocks : ZstdReader Unit) =
    scanBlock >>= fun last ↦ if last then pure () else scanBlocks := by
  funext offset input
  change _ = Reader.bind _ _ offset input
  rw [scanBlocks, Reader.bind]
  cases scanBlock offset input with
  | torn => rfl
  | failed e => rfl
  | done last offset rest => cases last <;> rfl

theorem reads_scanBlocks (blocks : List ZstdBlock) (last : ZstdBlock)
    (hblocks : ∀ b ∈ blocks, b.isLast = false) (hlast : last.isLast = true) :
    Reads scanBlocks (blocks.flatMap ZstdBlock.bytes ++ last.bytes) () := by
  induction blocks with
  | nil =>
    rw [scanBlocks_eq, List.flatMap_nil, List.nil_append, ← List.append_nil last.bytes]
    refine (reads_scanBlock last).bind ?_
    rw [hlast]
    exact Reads.pure ()
  | cons b blocks ih =>
    obtain ⟨hb, hrest⟩ := List.forall_mem_cons.mp hblocks
    rw [scanBlocks_eq, List.flatMap_cons, List.append_assoc]
    refine (reads_scanBlock b).bind ?_
    rw [hb]
    exact ih hrest

/-- **A frame is what the scan of one frame takes**, and nothing shorter is. -/
theorem reads_scanFrame (f : ZstdFrame) : Reads scanFrame f.bytes () := by
  refine (Reads.take f.magic_length).bind ?_
  refine (Reads.require f.magic_eq _).bind (x := []) ?_
  refine (Reads.entry f.descriptor).bind ?_
  refine (Reads.require f.reserved_clear _).bind (x := []) ?_
  refine (Reads.skip f.header_length).bind ?_
  refine (reads_scanBlocks f.blocks f.lastBlock f.blocks_continue f.lastBlock_isLast).bind ?_
  have hlength := f.checksum_length
  split_ifs at hlength ⊢
  · exact Reads.skip hlength
  · rw [List.eq_nil_of_length_eq_zero hlength]
    exact Reads.pure ()

/-! ## What a scan returns -/

/-- The ranges frames written one behind another occupy. -/
def frameRanges (offset : ℕ) : List ZstdFrame → List ZstdFrameRange
  | [] => []
  | f :: frames =>
    ⟨offset, offset + f.bytes.length⟩ :: frameRanges (offset + f.bytes.length) frames

/-- The bytes of frames written one behind another. -/
def concatFrames (frames : List ZstdFrame) : List UInt8 := frames.flatMap ZstdFrame.bytes

/-- Where the scan stops at an incomplete frame. -/
def tornStart (frames : List ZstdFrame) (torn : List UInt8) : Option ℕ :=
  if torn = [] then none else some (concatFrames frames).length

/-- What a scan without a limit finds. -/
def fullScan (frames : List ZstdFrame) (torn : List UInt8) : ZstdFrameScan :=
  ⟨frameRanges 0 frames, tornStart frames torn⟩

theorem length_frameRanges (offset : ℕ) (frames : List ZstdFrame) :
    (frameRanges offset frames).length = frames.length := by
  induction frames generalizing offset with
  | nil => rfl
  | cons f frames ih => rw [frameRanges, List.length_cons, List.length_cons, ih]

theorem scanFrom_nil (maxFrames : Option ℕ) (found : List ZstdFrameRange) (offset : ℕ) :
    scanFrom maxFrames found offset [] = .ok ⟨found, none⟩ := by
  rw [scanFrom, if_pos rfl]

/-- A complete frame is found, and the scan goes on behind it or has enough. -/
theorem scanFrom_frame (maxFrames : Option ℕ) (found : List ZstdFrameRange) (offset : ℕ)
    (f : ZstdFrame) (rest : List UInt8) :
    scanFrom maxFrames found offset (f.bytes ++ rest) =
      if some (found.length + 1) = maxFrames then
        .ok ⟨found ++ [⟨offset, offset + f.bytes.length⟩], none⟩
      else scanFrom maxFrames (found ++ [⟨offset, offset + f.bytes.length⟩])
        (offset + f.bytes.length) rest := by
  have hne : f.bytes ++ rest ≠ [] := by
    intro h
    have := f.bytes_length
    rw [List.append_eq_nil_iff.mp h |>.1, List.length_nil] at this
    exact Nat.lt_irrefl 0 this
  rw [scanFrom, if_neg hne]
  split
  case h_1 hframe => rw [(reads_scanFrame f).whole] at hframe; exact nomatch hframe
  case h_2 hframe => rw [(reads_scanFrame f).whole] at hframe; exact nomatch hframe
  case h_3 hframe =>
    rw [(reads_scanFrame f).whole] at hframe
    cases hframe
    simp only [List.length_append, List.length_singleton]

/-- An incomplete frame is where the scan stops. -/
theorem scanFrom_torn (maxFrames : Option ℕ) (found : List ZstdFrameRange) (offset : ℕ)
    (f : ZstdFrame) (k : Fin f.bytes.length) :
    scanFrom maxFrames found offset (f.bytes.take k) =
      .ok ⟨found, if f.bytes.take k = [] then none else some offset⟩ := by
  by_cases hnil : f.bytes.take k = []
  · rw [hnil, scanFrom_nil, if_pos rfl]
  · rw [scanFrom, if_neg hnil, if_neg hnil]
    split
    case h_1 => rfl
    case h_2 hframe => rw [(reads_scanFrame f).torn offset k k.isLt] at hframe; exact nomatch hframe
    case h_3 hframe => rw [(reads_scanFrame f).torn offset k k.isLt] at hframe; exact nomatch hframe

theorem concatFrames_cons (f : ZstdFrame) (frames : List ZstdFrame) :
    concatFrames (f :: frames) = f.bytes ++ concatFrames frames := rfl

/-- What is found behind `found` when the limit is not met. -/
def scannedFrom (found : List ZstdFrameRange) (offset : ℕ) (frames : List ZstdFrame)
    (torn : List UInt8) : ZstdFrameScan :=
  ⟨found ++ frameRanges offset frames,
    if torn = [] then none else some (offset + (concatFrames frames).length)⟩

/-- **The scan of a log.** A limit that is not ahead is never met. -/
theorem scanFrom_frames (maxFrames : Option ℕ) (found : List ZstdFrameRange) (offset : ℕ)
    (frames : List ZstdFrame) (last : ZstdFrame) (k : Fin last.bytes.length)
    (h : ∀ n ∈ maxFrames, n ≤ found.length ∨ found.length + frames.length < n) :
    scanFrom maxFrames found offset (concatFrames frames ++ last.bytes.take k) =
      .ok (scannedFrom found offset frames (last.bytes.take k)) := by
  induction frames generalizing found offset with
  | nil =>
    rw [scannedFrom, frameRanges, List.append_nil]
    exact scanFrom_torn maxFrames found offset last k
  | cons f frames ih =>
    have hlimit : some (found.length + 1) ≠ maxFrames := by
      intro hn
      have := h _ hn.symm
      rw [List.length_cons] at this
      omega
    have hbehind : ∀ n ∈ maxFrames,
        n ≤ (found ++ [(⟨offset, offset + f.bytes.length⟩ : ZstdFrameRange)]).length ∨
          (found ++ [(⟨offset, offset + f.bytes.length⟩ : ZstdFrameRange)]).length +
            frames.length < n := by
      intro n hn
      have := h n hn
      rw [List.length_cons] at this
      rw [List.length_append, List.length_singleton]
      omega
    rw [concatFrames_cons, List.append_assoc, scanFrom_frame, if_neg hlimit, ih _ _ hbehind,
      scannedFrom, scannedFrom, frameRanges, List.append_assoc, List.singleton_append,
      concatFrames_cons, List.length_append, Nat.add_assoc]

/-- A limit that is ahead stops the scan behind its last frame. -/
theorem scanFrom_limit (n : ℕ) (found : List ZstdFrameRange) (offset : ℕ)
    (frames : List ZstdFrame) (rest : List UInt8) (hahead : found.length < n)
    (hmet : n ≤ found.length + frames.length) :
    scanFrom (some n) found offset (concatFrames frames ++ rest) =
      .ok ⟨found ++ (frameRanges offset frames).take (n - found.length), none⟩ := by
  induction frames generalizing found offset with
  | nil =>
    rw [List.length_nil] at hmet
    omega
  | cons f frames ih =>
    rw [List.length_cons] at hmet
    obtain ⟨m, rfl⟩ : ∃ m, n = found.length + 1 + m := ⟨n - (found.length + 1), by omega⟩
    have htake : found.length + 1 + m - found.length = m + 1 := by omega
    rw [concatFrames_cons, List.append_assoc, scanFrom_frame, htake, frameRanges,
      List.take_succ_cons]
    by_cases hm : m = 0
    · rw [hm, Nat.add_zero, if_pos rfl, List.take_zero]
    · have hne : some (found.length + 1) ≠ some (found.length + 1 + m) := by
        rw [ne_eq, Option.some.injEq]
        omega
      have hrest := ih (found ++ [⟨offset, offset + f.bytes.length⟩]) (offset + f.bytes.length)
        (by rw [List.length_append, List.length_singleton]; omega)
        (by rw [List.length_append, List.length_singleton]; omega)
      rw [if_neg hne, hrest, List.length_append, List.length_singleton, Nat.add_sub_cancel_left,
        List.append_assoc, List.singleton_append]

theorem scannedFrom_start (frames : List ZstdFrame) (torn : List UInt8) :
    scannedFrom [] 0 frames torn = fullScan frames torn := by
  rw [scannedFrom, fullScan, tornStart, List.nil_append, Nat.zero_add]

/-- What a scan is to return: everything, or the first `n` ranges. -/
def ExactScan (frames : List ZstdFrame) (torn : List UInt8) (maxFrames : Option ℕ)
    (result : Except ZstdScanError ZstdFrameScan) : Prop :=
  match maxFrames with
  | none => result = .ok (fullScan frames torn)
  | some n => ∃ scan, result = .ok scan ∧ scan.frames = (frameRanges 0 frames).take n

/-- **The frame scan.** Of a log of complete frames and a proper prefix of one more, the scan
returns the ranges of the frames and where the prefix starts, and with a limit the first ranges. A
limit of zero is looked at behind the first frame only, and limits nothing. -/
theorem zstdScan_exact_iff (frames : List ZstdFrame) (last : ZstdFrame)
    (k : Fin last.bytes.length) (maxFrames : Option ℕ) :
    ExactScan frames (last.bytes.take k) maxFrames
        (scanZstdFrames (concatFrames frames ++ last.bytes.take k) maxFrames) ↔
      maxFrames ≠ some 0 ∨ frames = [] := by
  have hfull (h : ∀ n ∈ maxFrames, n ≤ 0 ∨ frames.length < n) :
      scanZstdFrames (concatFrames frames ++ last.bytes.take k) maxFrames =
        .ok (fullScan frames (last.bytes.take k)) := by
    rw [scanZstdFrames, ← scannedFrom_start]
    exact scanFrom_frames maxFrames [] 0 frames last k (by simpa using h)
  cases maxFrames with
  | none => simpa [ExactScan] using hfull
  | some n =>
    by_cases hahead : 0 < n ∧ n ≤ frames.length
    · have hlimit := scanFrom_limit n [] 0 frames (last.bytes.take k) hahead.1
        (by simpa using hahead.2)
      refine iff_of_true ⟨_, hlimit, ?_⟩ (.inl ?_)
      · rw [List.nil_append, List.length_nil, Nat.sub_zero]
      · rw [ne_eq, Option.some.injEq]
        omega
    · have hscan := hfull fun m hm ↦ by
        cases hm
        omega
      have hframes : ExactScan frames (last.bytes.take k) (some n)
            (scanZstdFrames (concatFrames frames ++ last.bytes.take k) (some n)) ↔
          frameRanges 0 frames = (frameRanges 0 frames).take n := by
        constructor
        · rintro ⟨scan, hresult, hranges⟩
          rw [hscan] at hresult
          cases hresult
          exact hranges
        · exact fun h ↦ ⟨_, hscan, h⟩
      rw [hframes, eq_comm, List.take_eq_self_iff, length_frameRanges, ne_eq, Option.some.injEq,
        ← List.length_eq_zero_iff]
      omega

/-- A frame with nothing in it. -/
def emptyFrame : ZstdFrame where
  magic := [0x28, 0xB5, 0x2F, 0xFD]
  descriptor := 0x20
  header := [0x00]
  blocks := []
  lastBlock := ⟨[0x01, 0x00, 0x00], [], rfl, by decide, by decide⟩
  checksum := []
  magic_length := rfl
  magic_eq := by decide
  reserved_clear := by decide
  header_length := by decide
  blocks_continue := fun _ h ↦ absurd h List.not_mem_nil
  lastBlock_isLast := by decide
  checksum_length := by decide

/-- One complete frame, none asked for: it is returned all the same. -/
theorem zstdScan_zero_limit :
    ¬ ExactScan [emptyFrame] [] (some 0)
      (scanZstdFrames [0x28, 0xB5, 0x2F, 0xFD, 0x20, 0x00, 0x01, 0x00, 0x00] (some 0)) := by
  rintro ⟨scan, hresult, hranges⟩
  have hscan := scanFrom_frames (some 0) [] 0 [emptyFrame] emptyFrame ⟨0, emptyFrame.bytes_length⟩
    (by simp)
  rw [scanZstdFrames] at hresult
  have hbytes : concatFrames [emptyFrame] ++ emptyFrame.bytes.take 0 =
    [0x28, 0xB5, 0x2F, 0xFD, 0x20, 0x00, 0x01, 0x00, 0x00] := rfl
  rw [hbytes, hresult] at hscan
  cases hscan
  exact nomatch hranges

/-! ## Reading a compressed log -/

/-- The bytes of a frame in the buffer. -/
def ZstdFrameRange.slice (buffer : List UInt8) (r : ZstdFrameRange) : List UInt8 :=
  (buffer.drop r.start).take (r.stop - r.start)

/-- What the reader makes of a buffer, given the decoder of a complete frame and what a torn one
still yields. -/
def zstdLog (decompressFrame decompressPrefix : List UInt8 → List UInt8) (buffer : List UInt8) :
    Except ZstdScanError LogFile :=
  match scanZstdFrames buffer none with
  | .error e => .error e
  | .ok scan => .ok (.zstd (scan.frames.map fun r ↦ decompressFrame (r.slice buffer))
      (scan.tornStart.map fun start ↦ decompressPrefix (buffer.drop start)))

end XxAgent.Jsonl
