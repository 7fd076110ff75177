import XxAgent.Ecma.StringMethods

/-!
# Path segments

A session id becomes the name of a directory. Units that are safe in a name stay as they are, every
other unit is escaped, and the two names that a file system gives a meaning of their own are escaped
as a whole.
-/

namespace XxAgent.Jsonl

open Ecma

/-! ## Encoding -/

/-- The escape character. -/
def tilde : UInt16 := 0x7E

/-- `/^[A-Za-z0-9._-]$/` -/
def isSafeUnit (u : UInt16) : Bool :=
  decide (0x41 ≤ u.toNat ∧ u.toNat ≤ 0x5A ∨ 0x61 ≤ u.toNat ∧ u.toNat ≤ 0x7A ∨
    0x30 ≤ u.toNat ∧ u.toNat ≤ 0x39 ∨ u = dot ∨ u = 0x5F ∨ u = minus)

/-- An escaped unit. -/
def escapeUnit (u : UInt16) : JsString :=
  tilde :: padStart (upperHexText u.toNat) 4 (upperHexUnit 0)

/-- The round of the loop of `encodeSegment`. -/
def encodeUnit (u : UInt16) : JsString :=
  if u ≠ tilde ∧ isSafeUnit u = true then [u] else escapeUnit u

/-- `encodeSegment`; it throws on the empty string. -/
def encodeSegment (raw : JsString) : Option JsString :=
  if raw.length = 0 then none
  else if raw = [dot] then some (escapeUnit dot)
  else if raw = [dot, dot] then some (escapeUnit dot ++ escapeUnit dot)
  else some (raw.flatMap encodeUnit)

/-! ## Decoding -/

/-- What an encoded segment stands for. -/
def decodeSegment : JsString → JsString
  | [] => []
  | u :: rest =>
    if u = tilde then UInt16.ofNat (upperHexValue (rest.take 4)) :: decodeSegment (rest.drop 4)
    else u :: decodeSegment rest
termination_by s => s.length

theorem decodeSegment_nil : decodeSegment [] = [] := by rw [decodeSegment]

theorem decodeSegment_cons {u : UInt16} (h : u ≠ tilde) (rest : JsString) :
    decodeSegment (u :: rest) = u :: decodeSegment rest := by
  rw [decodeSegment, if_neg h]

/-- A unit is escaped by four digits. -/
theorem length_escape (u : UInt16) :
    (padStart (upperHexText u.toNat) 4 (upperHexUnit 0)).length = 4 :=
  length_padStart _ (length_upperHexText_le (by norm_num) u.toNat_lt)

theorem decodeSegment_escapeUnit (u : UInt16) (rest : JsString) :
    decodeSegment (escapeUnit u ++ rest) = u :: decodeSegment rest := by
  have hlength := length_escape u
  rw [escapeUnit, List.cons_append, decodeSegment, if_pos rfl, List.take_left' hlength,
    List.drop_left' hlength, upperHexValue_padStart, upperHexValue_upperHexText, UInt16.ofNat_toNat]

theorem decodeSegment_encodeUnit (u : UInt16) (rest : JsString) :
    decodeSegment (encodeUnit u ++ rest) = u :: decodeSegment rest := by
  rw [encodeUnit]
  split_ifs with hsafe
  · exact decodeSegment_cons hsafe.1 rest
  · exact decodeSegment_escapeUnit u rest

theorem decodeSegment_flatMap (raw : JsString) : decodeSegment (raw.flatMap encodeUnit) = raw := by
  induction raw with
  | nil => exact decodeSegment_nil
  | cons u raw ih => rw [List.flatMap_cons, decodeSegment_encodeUnit, ih]

/-! ## Segments -/

/-- A unit of a portable file name, or the escape character. -/
def isSegmentUnit (u : UInt16) : Bool := isSafeUnit u || decide (u = tilde)

theorem isSegmentUnit_upperHexUnit {d : ℕ} (h : d < 16) :
    isSegmentUnit (upperHexUnit d) = true := by
  have hunit := toNat_upperHexUnit h
  have hsafe : isSafeUnit (upperHexUnit d) = true := by
    rw [isSafeUnit, decide_eq_true_eq, hunit]
    split_ifs
    · exact Or.inr (Or.inr (Or.inl ⟨by omega, by omega⟩))
    · exact Or.inl ⟨by omega, by omega⟩
  rw [isSegmentUnit, hsafe, Bool.true_or]

theorem isSegmentUnit_escapeUnit (u : UInt16) : ∀ v ∈ escapeUnit u, isSegmentUnit v = true := by
  intro v hv
  rcases List.mem_cons.mp hv with rfl | hdigit
  · decide
  · obtain ⟨d, hd, rfl⟩ := exists_digit_of_mem_padStart hdigit
    exact isSegmentUnit_upperHexUnit hd

theorem isSegmentUnit_encodeUnit (u : UInt16) : ∀ v ∈ encodeUnit u, isSegmentUnit v = true := by
  intro v hv
  rw [encodeUnit] at hv
  split_ifs at hv with hsafe
  · rw [List.mem_singleton.mp hv, isSegmentUnit, hsafe.2, Bool.true_or]
  · exact isSegmentUnit_escapeUnit u v hv

/-- A decoder takes every segment back, whatever the string was. -/
theorem decodeSegment_encodeSegment {raw segment : JsString}
    (h : encodeSegment raw = some segment) : decodeSegment segment = raw := by
  rw [encodeSegment] at h
  split_ifs at h with hempty hdot hdots
  · rw [← Option.some.inj h, hdot, ← List.append_nil (escapeUnit dot), decodeSegment_escapeUnit,
      decodeSegment_nil]
  · rw [← Option.some.inj h, hdots, decodeSegment_escapeUnit, ← List.append_nil (escapeUnit dot),
      decodeSegment_escapeUnit, decodeSegment_nil]
  · rw [← Option.some.inj h, decodeSegment_flatMap]

theorem isSegmentUnit_encodeSegment {raw segment : JsString}
    (h : encodeSegment raw = some segment) : ∀ u ∈ segment, isSegmentUnit u = true := by
  rw [encodeSegment] at h
  intro u hu
  split_ifs at h with hempty hdot hdots
  · rw [← Option.some.inj h] at hu
    exact isSegmentUnit_escapeUnit dot u hu
  · rw [← Option.some.inj h] at hu
    rcases List.mem_append.mp hu with hfirst | hsecond
    · exact isSegmentUnit_escapeUnit dot u hfirst
    · exact isSegmentUnit_escapeUnit dot u hsecond
  · rw [← Option.some.inj h] at hu
    obtain ⟨v, -, hmem⟩ := List.mem_flatMap.mp hu
    exact isSegmentUnit_encodeUnit v u hmem

/-- Names that consist of dots decode to themselves, and these are escaped. -/
theorem ne_dots_of_encodeSegment {raw segment : JsString} (h : encodeSegment raw = some segment) :
    segment ≠ [dot] ∧ segment ≠ [dot, dot] := by
  have hne : dot ≠ tilde := by decide
  have hdecoded := decodeSegment_encodeSegment h
  refine ⟨?_, ?_⟩
  · rintro rfl
    rw [decodeSegment_cons hne, decodeSegment_nil] at hdecoded
    rw [← hdecoded] at h
    exact absurd h (by decide +kernel)
  · rintro rfl
    rw [decodeSegment_cons hne, decodeSegment_cons hne, decodeSegment_nil] at hdecoded
    rw [← hdecoded] at h
    exact absurd h (by decide +kernel)

/-- **Every non-empty string has a segment of its own**: the segment is safe in a path, it is none
of the two special names, and no other string has it. -/
theorem encodeSegment_segment {raw : JsString} (h : raw ≠ []) :
    ∃ segment, encodeSegment raw = some segment ∧ decodeSegment segment = raw ∧
      (∀ u ∈ segment, isSegmentUnit u = true) ∧ segment ≠ [dot] ∧ segment ≠ [dot, dot] ∧
      ∀ other, encodeSegment other = some segment → other = raw := by
  obtain ⟨segment, hsegment⟩ : ∃ segment, encodeSegment raw = some segment := by
    rw [encodeSegment, if_neg (by simpa using h)]
    split_ifs
    · exact ⟨_, rfl⟩
    · exact ⟨_, rfl⟩
    · exact ⟨_, rfl⟩
  have hdecoded := decodeSegment_encodeSegment hsegment
  obtain ⟨hdot, hdots⟩ := ne_dots_of_encodeSegment hsegment
  refine ⟨segment, hsegment, hdecoded, isSegmentUnit_encodeSegment hsegment, hdot, hdots, ?_⟩
  intro other hother
  rw [← decodeSegment_encodeSegment hother, hdecoded]

/-- A string that looks like an escape, with a lone surrogate behind it. -/
theorem encodeSegment_segment_escape : ∃ segment,
    encodeSegment [tilde, 0x30, 0xD800] = some segment ∧
      decodeSegment segment = [tilde, 0x30, 0xD800] ∧
      (∀ u ∈ segment, isSegmentUnit u = true) ∧ segment ≠ [dot] ∧ segment ≠ [dot, dot] ∧
      ∀ other, encodeSegment other = some segment → other = [tilde, 0x30, 0xD800] :=
  encodeSegment_segment (by simp)

end XxAgent.Jsonl
