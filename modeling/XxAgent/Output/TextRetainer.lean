import XxAgent.Ecma.CodePoints

/-!
# Bounded text

A retainer takes the chunks of a byte stream and holds a prefix and the last bytes of it. When it is
finished it decodes what it holds: as one buffer if nothing was left out, else prefix and suffix
each by itself, trimmed to the characters that are whole.

The decoder drops a byte order mark at the beginning of what it decodes. The retainer counts the
bytes it hands over, not those of the text it gets, so a stream whose kept prefix or suffix begins
with that character loses it from the text and from the count.
-/

namespace XxAgent.Output

open Ecma

/-- How much content was omitted; a retainer never answers `unknown`. -/
inductive Omitted where
  | none
  | exact (count : ℕ)
deriving DecidableEq

/-- The count of what was omitted. -/
def Omitted.count : Omitted → ℕ
  | none => 0
  | exact count => count

/-- The caller receives this after each push. -/
structure PushDecision where
  kept : Bool
  truncated : Bool
deriving DecidableEq

/-- Final result for text streams. -/
structure RetainedText where
  text : JsString
  truncated : Bool
  omittedBytes : Omitted
deriving DecidableEq

/-- Keep a prefix, a suffix, or both, counted in bytes. -/
inductive TextRetentionStrategy where
  | head (maxBytes : ℕ)
  | tail (maxBytes : ℕ)
  | headTail (headBytes tailBytes : ℕ)

def TextRetentionStrategy.prefixCap : TextRetentionStrategy → ℕ
  | head maxBytes => maxBytes
  | tail _ => 0
  | headTail headBytes _ => headBytes

def TextRetentionStrategy.suffixCap : TextRetentionStrategy → ℕ
  | head _ => 0
  | tail maxBytes => maxBytes
  | headTail _ tailBytes => tailBytes

/-! ## Decoding and trimming -/

/-- `U+FEFF`. -/
def byteOrderMark : Char := '\uFEFF'

/-- A decoder without `ignoreBOM` drops a byte order mark at the beginning. -/
def stripByteOrderMark : List Char → List Char
  | c :: cs => if c = byteOrderMark then cs else c :: cs
  | [] => []

/-- `decoder.decode(bytes)`. -/
def decode (bytes : List UInt8) : JsString :=
  (stripByteOrderMark (decodeChars none bytes)).flatMap utf16

/-- The length a lead byte declares; zero for what is no lead byte. -/
def declaredLength (lead : UInt8) : ℕ :=
  if lead.toNat < 0x80 then 1
  else if lead.toNat < 0xE0 then 2
  else if lead.toNat < 0xF0 then 3
  else if lead.toNat < 0xF8 then 4
  else 0

/-- Scan back over continuation bytes, at most three; `i` bytes are left. -/
def scanBack (bytes : List UInt8) : ℕ → ℕ
  | 0 => 0
  | i + 1 =>
    if (bytes[i]?).any isContinuation ∧ bytes.length - i ≤ 3 then scanBack bytes i else i + 1

/-- Drop a trailing incomplete sequence. -/
def trimTrailingPartialUtf8 (bytes : List UInt8) : List UInt8 :=
  match scanBack bytes bytes.length with
  | 0 => bytes
  | i + 1 =>
    match bytes[i]? with
    | none => bytes
    | some lead =>
      if declaredLength lead = 0 then bytes
      else if bytes.length - i < declaredLength lead then bytes.take i else bytes

/-- Drop leading continuation bytes. -/
def trimLeadingContinuationUtf8 (bytes : List UInt8) : List UInt8 := bytes.dropWhile isContinuation

/-! ## The retainer -/

/-- One prefix/suffix accumulator. -/
structure TextRetainer where
  prefixCap : ℕ
  suffixCap : ℕ
  prefixChunks : List (List UInt8)
  prefixHeld : ℕ
  suffixChunks : List (List UInt8)
  suffixHeld : ℕ
  total : ℕ

namespace TextRetainer

def new (strategy : TextRetentionStrategy) : TextRetainer :=
  ⟨strategy.prefixCap, strategy.suffixCap, [], 0, [], 0, 0⟩

/-- Bytes omitted once `total` bytes have been seen. -/
def omittedAt (r : TextRetainer) (total : ℕ) : ℕ :=
  let prefixLen := min total r.prefixCap
  let suffixLen := min (total - prefixLen) r.suffixCap
  total - prefixLen - suffixLen

/-- Prefix bytes fill up to the cap. -/
def pushPrefix (r : TextRetainer) (bytes : List UInt8) : TextRetainer :=
  let take := min (r.prefixCap - r.prefixHeld) bytes.length
  if 0 < take then
    { r with
      prefixChunks := r.prefixChunks ++ [bytes.take take]
      prefixHeld := r.prefixHeld + take }
  else r

/-- Drop whole leading chunks that have slid out of the last `suffixCap` bytes. -/
def slide (suffixCap : ℕ) : List (List UInt8) → ℕ → List (List UInt8) × ℕ
  | [], held => ([], held)
  | head :: rest, held =>
    if suffixCap ≤ held - head.length then slide suffixCap rest (held - head.length)
    else (head :: rest, held)

/-- Trim the leading bytes of the first chunk beyond the last `suffixCap`. -/
def trimHead (suffixCap : ℕ) : List (List UInt8) × ℕ → List (List UInt8) × ℕ
  | ([], held) => ([], held)
  | (head :: rest, held) =>
    if suffixCap < held then (head.drop (held - suffixCap) :: rest, held - (held - suffixCap))
    else (head :: rest, held)

/-- Suffix bytes roll. -/
def pushSuffix (r : TextRetainer) (bytes : List UInt8) : TextRetainer :=
  let rolled := trimHead r.suffixCap
    (slide r.suffixCap (r.suffixChunks ++ [bytes]) (r.suffixHeld + bytes.length))
  if 0 < r.suffixCap then { r with suffixChunks := rolled.1, suffixHeld := rolled.2 } else r

/-- Offer one chunk. -/
def push (r : TextRetainer) (bytes : List UInt8) : TextRetainer × PushDecision :=
  let next := (({ r with total := r.total + bytes.length } : TextRetainer).pushPrefix
    bytes).pushSuffix bytes
  (next, ⟨!decide (next.omittedAt r.total < next.omittedAt next.total),
    decide (0 < next.omittedAt next.total)⟩)

/-- A string is encoded first. -/
def pushString (r : TextRetainer) (chunk : JsString) : TextRetainer × PushDecision :=
  r.push (encodeUtf8 chunk)

/-- Decode what is held and report the omitted bytes. -/
def finish (r : TextRetainer) : RetainedText :=
  let prefixLen := min r.total r.prefixCap
  let suffixLen := min (r.total - prefixLen) r.suffixCap
  let heldPrefix := r.prefixChunks.flatten
  let heldSuffix := r.suffixChunks.flatten.drop (r.suffixHeld - suffixLen)
  -- Only a real gap makes each side a cut.
  let gap := 0 < r.omittedAt r.total
  let keptPrefix := if gap then trimTrailingPartialUtf8 heldPrefix else heldPrefix
  let keptSuffix := if gap then trimLeadingContinuationUtf8 heldSuffix else heldSuffix
  let text := if gap then decode keptPrefix ++ decode keptSuffix
    else decode (heldPrefix ++ heldSuffix)
  let omitted := r.total - keptPrefix.length - keptSuffix.length
  ⟨text, decide (0 < omitted), if 0 < omitted then .exact omitted else .none⟩

/-- A retainer that was offered some chunks. -/
def pushAll (r : TextRetainer) (chunks : List (List UInt8)) : TextRetainer :=
  chunks.foldl (fun r bytes ↦ (r.push bytes).1) r

end TextRetainer

/-- What a retainer makes of a stream that comes in chunks. -/
def retain (strategy : TextRetentionStrategy) (chunks : List (List UInt8)) : RetainedText :=
  ((TextRetainer.new strategy).pushAll chunks).finish

/-! ## What is held -/

/-- The last `n` entries. -/
def IsLast {α : Type*} (n : ℕ) (xs ys : List α) : Prop := ys <:+ xs ∧ ys.length = min xs.length n

theorem IsLast.eq_drop {α : Type*} {n : ℕ} {xs ys : List α} (h : IsLast n xs ys) :
    ys = xs.drop (xs.length - n) := by
  rw [List.suffix_iff_eq_drop.mp h.1, h.2]
  congr 1
  omega

namespace TextRetainer

/-- What a retainer holds of the stream it was offered. -/
structure Holds (s : List UInt8) (r : TextRetainer) : Prop where
  total : r.total = s.length
  heldPrefix : r.prefixChunks.flatten = s.take r.prefixCap
  prefixHeld : r.prefixHeld = min s.length r.prefixCap
  heldSuffix : IsLast r.suffixCap s r.suffixChunks.flatten
  suffixHeld : r.suffixHeld = r.suffixChunks.flatten.length

theorem holds_new (strategy : TextRetentionStrategy) : (new strategy).Holds [] where
  total := rfl
  heldPrefix := List.take_nil.symm
  prefixHeld := (Nat.zero_min _).symm
  heldSuffix := ⟨List.suffix_refl [], (Nat.zero_min _).symm⟩
  suffixHeld := rfl

/-- Sliding leaves a run of the last bytes, of which the first chunk alone may be too long. -/
theorem slide_spec (suffixCap : ℕ) (chunks : List (List UInt8)) :
    ∃ kept, slide suffixCap chunks chunks.flatten.length = (kept, kept.flatten.length) ∧
      kept.flatten <:+ chunks.flatten ∧ min chunks.flatten.length suffixCap ≤ kept.flatten.length ∧
      ∀ head rest, kept = head :: rest → rest.flatten.length < suffixCap := by
  induction chunks with
  | nil => exact ⟨[], rfl, List.suffix_refl _, Nat.min_le_left _ _, fun _ _ h ↦ (nomatch h)⟩
  | cons head rest ih =>
    have hlength : (head :: rest).flatten.length - head.length = rest.flatten.length := by
      rw [List.flatten_cons, List.length_append, Nat.add_sub_cancel_left]
    rw [slide, hlength]
    split_ifs with hle
    · obtain ⟨kept, hslide, hsuffix, hmin, hhead⟩ := ih
      refine ⟨kept, hslide, hsuffix.trans (List.suffix_append _ _), ?_, hhead⟩
      rw [Nat.min_eq_right hle] at hmin
      exact Nat.le_trans (Nat.min_le_right _ _) hmin
    · refine ⟨head :: rest, rfl, List.suffix_refl _, Nat.min_le_left _ _, fun _ _ h ↦ ?_⟩
      cases h
      exact Nat.lt_of_not_le hle

/-- What is left of the suffix chunks are the last bytes of them. -/
theorem trimHead_slide (suffixCap : ℕ) (chunks : List (List UInt8)) :
    ∃ kept, trimHead suffixCap (slide suffixCap chunks chunks.flatten.length) =
      (kept, kept.flatten.length) ∧ IsLast suffixCap chunks.flatten kept.flatten := by
  obtain ⟨kept, hslide, hsuffix, hmin, hhead⟩ := slide_spec suffixCap chunks
  have hle := hsuffix.length_le
  rw [hslide]
  cases kept with
  | nil =>
    refine ⟨[], rfl, hsuffix, ?_⟩
    rw [List.flatten_nil, List.length_nil] at hmin ⊢
    omega
  | cons head rest =>
    have hrest := hhead head rest rfl
    rw [List.flatten_cons, List.length_append] at hle hmin
    rw [trimHead, List.flatten_cons, List.length_append]
    split_ifs with hlt
    · have hkept : (head.drop (head.length + rest.flatten.length - suffixCap) ::
          rest).flatten.length = suffixCap := by
        rw [List.flatten_cons, List.length_append, List.length_drop]
        omega
      have hdrop : (head.drop (head.length + rest.flatten.length - suffixCap) :: rest).flatten <:+
          (head :: rest).flatten := by
        refine ⟨head.take (head.length + rest.flatten.length - suffixCap), ?_⟩
        rw [List.flatten_cons, ← List.append_assoc, List.take_append_drop, List.flatten_cons]
      refine ⟨head.drop (head.length + rest.flatten.length - suffixCap) :: rest, ?_,
        hdrop.trans hsuffix, ?_⟩
      · rw [hkept]
        congr 1
        omega
      · rw [hkept]
        omega
    · refine ⟨head :: rest, ?_, hsuffix, ?_⟩
      · rw [List.flatten_cons, List.length_append]
      · rw [List.flatten_cons, List.length_append]
        omega

theorem pushSuffix_spec (r : TextRetainer) (bytes : List UInt8) :
    ∃ chunks held, r.pushSuffix bytes = { r with suffixChunks := chunks, suffixHeld := held } ∧
      (∀ s, IsLast r.suffixCap s r.suffixChunks.flatten →
        r.suffixHeld = r.suffixChunks.flatten.length →
          IsLast r.suffixCap (s ++ bytes) chunks.flatten ∧ held = chunks.flatten.length) := by
  rw [pushSuffix]
  split_ifs with hcap
  · refine ⟨_, _, rfl, fun s hlast hheld ↦ ?_⟩
    have hflatten : (r.suffixChunks ++ [bytes]).flatten = r.suffixChunks.flatten ++ bytes := by
      rw [List.flatten_append, List.flatten_singleton]
    have hlength : r.suffixHeld + bytes.length = (r.suffixChunks ++ [bytes]).flatten.length := by
      rw [hflatten, List.length_append, hheld]
    obtain ⟨kept, hkept, hsuffix, hmin⟩ := trimHead_slide r.suffixCap (r.suffixChunks ++ [bytes])
    rw [hlength, hkept]
    obtain ⟨before, hbefore⟩ := hlast.1
    refine ⟨⟨hsuffix.trans ⟨before, ?_⟩, ?_⟩, rfl⟩
    · rw [hflatten, ← List.append_assoc, hbefore]
    · rw [hmin, hflatten, List.length_append, List.length_append, hlast.2]
      omega
  · refine ⟨r.suffixChunks, r.suffixHeld, rfl, fun s hlast hheld ↦ ⟨?_, hheld⟩⟩
    have hzero : r.suffixCap = 0 := Nat.eq_zero_of_not_pos hcap
    have hnil : r.suffixChunks.flatten = [] := by
      rw [← List.length_eq_zero_iff, hlast.2, hzero, Nat.min_zero]
    rw [hnil, hzero]
    exact ⟨List.nil_suffix, (Nat.min_zero _).symm⟩

theorem pushPrefix_spec (r : TextRetainer) (bytes : List UInt8) :
    ∃ chunks held, r.pushPrefix bytes = { r with prefixChunks := chunks, prefixHeld := held } ∧
      (∀ s : List UInt8, r.prefixChunks.flatten = s.take r.prefixCap →
        r.prefixHeld = min s.length r.prefixCap →
          chunks.flatten = (s ++ bytes).take r.prefixCap ∧
            held = min (s ++ bytes).length r.prefixCap) := by
  rw [pushPrefix]
  split_ifs with htake
  · refine ⟨_, _, rfl, fun s hfront hheld ↦ ⟨?_, ?_⟩⟩
    · rw [List.flatten_append, List.flatten_singleton, hfront, List.take_append,
        List.append_cancel_left_eq, List.take_eq_take_iff]
      omega
    · rw [List.length_append]
      omega
  · refine ⟨r.prefixChunks, r.prefixHeld, rfl, fun s hfront hheld ↦ ⟨?_, ?_⟩⟩
    · have hnil : bytes.take (r.prefixCap - s.length) = [] := by
        rw [← List.length_eq_zero_iff, List.length_take]
        omega
      rw [hfront, List.take_append, hnil, List.append_nil]
    · rw [List.length_append]
      omega

/-- **One push.** -/
theorem Holds.push {s : List UInt8} {r : TextRetainer} (h : r.Holds s) (bytes : List UInt8) :
    (r.push bytes).1.Holds (s ++ bytes) := by
  obtain ⟨prefixChunks, prefixHeld, hfront, hfrontSpec⟩ :=
    pushPrefix_spec { r with total := r.total + bytes.length } bytes
  obtain ⟨hchunks, hheld⟩ := hfrontSpec s h.heldPrefix h.prefixHeld
  rw [TextRetainer.push]
  simp only [hfront]
  obtain ⟨suffixChunks, suffixHeld, hsuffix, hsuffixSpec⟩ := pushSuffix_spec
    (⟨r.prefixCap, r.suffixCap, prefixChunks, prefixHeld, r.suffixChunks, r.suffixHeld,
      r.total + bytes.length⟩ : TextRetainer) bytes
  obtain ⟨hlast, hlength⟩ := hsuffixSpec s h.heldSuffix h.suffixHeld
  rw [hsuffix]
  refine ⟨?_, hchunks, hheld, hlast, hlength⟩
  rw [List.length_append, ← h.total]

theorem caps_push (r : TextRetainer) (bytes : List UInt8) :
    (r.push bytes).1.prefixCap = r.prefixCap ∧ (r.push bytes).1.suffixCap = r.suffixCap := by
  obtain ⟨_, _, hfront, -⟩ := pushPrefix_spec { r with total := r.total + bytes.length } bytes
  rw [TextRetainer.push]
  simp only [hfront]
  obtain ⟨_, _, hsuffix, -⟩ := pushSuffix_spec
    (⟨r.prefixCap, r.suffixCap, _, _, r.suffixChunks, r.suffixHeld,
      r.total + bytes.length⟩ : TextRetainer) bytes
  rw [hsuffix]
  exact ⟨rfl, rfl⟩

/-- **A run of pushes.** What is held does not depend on how the stream was cut. -/
theorem Holds.pushAll {s : List UInt8} {r : TextRetainer} (h : r.Holds s)
    (chunks : List (List UInt8)) :
    (r.pushAll chunks).Holds (s ++ chunks.flatten) ∧
      (r.pushAll chunks).prefixCap = r.prefixCap ∧ (r.pushAll chunks).suffixCap = r.suffixCap := by
  induction chunks generalizing s r with
  | nil =>
    rw [List.flatten_nil, List.append_nil]
    exact ⟨h, rfl, rfl⟩
  | cons bytes chunks ih =>
    obtain ⟨hholds, hfront, hsuffix⟩ := ih (h.push bytes)
    rw [List.flatten_cons, ← List.append_assoc]
    obtain ⟨hfront', hsuffix'⟩ := caps_push r bytes
    exact ⟨hholds, hfront.trans hfront', hsuffix.trans hsuffix'⟩

end TextRetainer

/-! ## The result as a function of the stream -/

/-- What is returned where bytes were left out. -/
def cutText (kept keptSuffix : List UInt8) (total : ℕ) : RetainedText :=
  let omitted := total - kept.length - keptSuffix.length
  ⟨decode kept ++ decode keptSuffix, decide (0 < omitted),
    if 0 < omitted then .exact omitted else .none⟩

/-- What retaining a stream gives, chunks or no chunks. -/
def retainedText (strategy : TextRetentionStrategy) (s : List UInt8) : RetainedText :=
  if s.length ≤ strategy.prefixCap + strategy.suffixCap then ⟨decode s, false, .none⟩
  else cutText (trimTrailingPartialUtf8 (s.take strategy.prefixCap))
    (trimLeadingContinuationUtf8 (s.drop (s.length - strategy.suffixCap))) s.length

theorem omittedAt_eq (r : TextRetainer) (total : ℕ) :
    r.omittedAt total = total - (r.prefixCap + r.suffixCap) := by
  rw [TextRetainer.omittedAt]
  omega

/-- What `finish` takes of the held suffix: the last bytes that the prefix does not have. -/
theorem heldSuffix_drop {s : List UInt8} {r : TextRetainer} (h : r.Holds s) :
    r.suffixChunks.flatten.drop
        (r.suffixHeld - min (s.length - min s.length r.prefixCap) r.suffixCap) =
      s.drop (max (s.length - r.suffixCap) (min s.length r.prefixCap)) := by
  rw [h.suffixHeld, h.heldSuffix.2, h.heldSuffix.eq_drop, List.drop_drop]
  congr 1
  omega

theorem finish_of_holds {strategy : TextRetentionStrategy} {s : List UInt8} {r : TextRetainer}
    (h : r.Holds s) (hfront : r.prefixCap = strategy.prefixCap)
    (hsuffix : r.suffixCap = strategy.suffixCap) : r.finish = retainedText strategy s := by
  rw [TextRetainer.finish, retainedText, ← hfront, ← hsuffix]
  simp only [omittedAt_eq, heldSuffix_drop h, h.heldPrefix, h.total]
  by_cases hfits : s.length ≤ r.prefixCap + r.suffixCap
  · have hgap : ¬ 0 < s.length - (r.prefixCap + r.suffixCap) := by omega
    have hmax : max (s.length - r.suffixCap) (min s.length r.prefixCap) =
        min s.length r.prefixCap := by omega
    have htake : s.take r.prefixCap = s.take (min s.length r.prefixCap) := by
      rw [List.take_eq_take_iff]
      omega
    have hall : s.length - (s.take (min s.length r.prefixCap)).length -
        (s.drop (min s.length r.prefixCap)).length = 0 := by
      rw [List.length_take, List.length_drop]
      omega
    rw [if_pos hfits, if_neg hgap, if_neg hgap, if_neg hgap, hmax, htake, List.take_append_drop,
      hall]
    rfl
  · have hgap : 0 < s.length - (r.prefixCap + r.suffixCap) := by omega
    have hmax : max (s.length - r.suffixCap) (min s.length r.prefixCap) =
        s.length - r.suffixCap := by omega
    rw [if_neg hfits, if_pos hgap, if_pos hgap, if_pos hgap, hmax, cutText]

/-- **Chunking does not matter.** -/
theorem retain_eq (strategy : TextRetentionStrategy) (chunks : List (List UInt8)) :
    retain strategy chunks = retainedText strategy chunks.flatten := by
  obtain ⟨hholds, hfront, hsuffix⟩ := (TextRetainer.holds_new strategy).pushAll chunks
  exact finish_of_holds hholds hfront hsuffix

/-! ## Cuts of valid text -/

theorem declaredLength_of_isLead {lead : UInt8} {n : ℕ} (h : IsLead lead n) :
    declaredLength lead = n + 1 := by
  rw [declaredLength]
  rcases h with h | h | h | h <;> split_ifs <;> omega

/-- Scanning back stops at the lead of the last sequence. -/
theorem scanBack_eq (front : List UInt8) {lead : UInt8} {n : ℕ} (hlead : IsLead lead n)
    {conts : List UInt8} (hconts : ∀ b ∈ conts, isContinuation b = true)
    (hlength : conts.length ≤ 3) (k : ℕ) (hk : k ≤ conts.length) :
    scanBack (front ++ lead :: conts) (front.length + 1 + k) = front.length + 1 := by
  induction k with
  | zero =>
    have hget : (front ++ lead :: conts)[front.length]? = some lead := by
      rw [List.getElem?_append_right (Nat.le_refl _), Nat.sub_self]
      rfl
    rw [Nat.add_zero, scanBack, hget, Option.any_some, hlead.not_continuation, if_neg (by simp)]
  | succ k ih =>
    have hget : (front ++ lead :: conts)[front.length + 1 + k]? = conts[k]? := by
      rw [List.getElem?_append_right (by omega)]
      have hindex : front.length + 1 + k - front.length = k + 1 := by omega
      rw [hindex, List.getElem?_cons_succ]
    have hcont : (conts[k]?).any isContinuation = true := by
      rw [List.getElem?_eq_getElem (by omega), Option.any_some]
      exact hconts _ (List.getElem_mem _)
    have hbound : (front ++ lead :: conts).length - (front.length + 1 + k) ≤ 3 := by
      rw [List.length_append, List.length_cons]
      omega
    rw [← Nat.add_assoc, scanBack, hget, if_pos ⟨hcont, hbound⟩]
    exact ih (by omega)

/-- The last sequence is kept if it is whole, and dropped if it is not. -/
theorem trimTrailing_eq (front : List UInt8) {lead : UInt8} {n : ℕ} (hlead : IsLead lead n)
    {conts : List UInt8} (hconts : ∀ b ∈ conts, isContinuation b = true)
    (hlength : conts.length ≤ n) :
    trimTrailingPartialUtf8 (front ++ lead :: conts) =
      if conts.length < n then front else front ++ lead :: conts := by
  have hn : n ≤ 3 := by
    rcases hlead with h | h | h | h <;> omega
  have hscan := scanBack_eq front hlead hconts (Nat.le_trans hlength hn) conts.length
    (Nat.le_refl _)
  have hall : (front ++ lead :: conts).length = front.length + 1 + conts.length := by
    rw [List.length_append, List.length_cons]
    omega
  have hget : (front ++ lead :: conts)[front.length]? = some lead := by
    rw [List.getElem?_append_right (Nat.le_refl _), Nat.sub_self]
    rfl
  rw [trimTrailingPartialUtf8, hall, hscan]
  simp only [hget, declaredLength_of_isLead hlead]
  rw [if_neg (Nat.succ_ne_zero n)]
  by_cases hpartial : conts.length < n
  · rw [if_pos hpartial, if_pos (by omega), List.take_left]
  · rw [if_neg hpartial, if_neg (by omega)]

theorem trimTrailing_encodeChars (cs : List Char) :
    trimTrailingPartialUtf8 (encodeChars cs) = encodeChars cs := by
  rcases List.eq_nil_or_concat cs with rfl | ⟨front, c, rfl⟩
  · rfl
  · obtain ⟨lead, conts, hc, hlead, hconts⟩ := encodeChar_shape c
    rw [List.concat_eq_append, encodeChars_append, encodeChars_cons, encodeChars_nil,
      List.append_nil, hc, trimTrailing_eq _ hlead hconts (Nat.le_refl _),
      if_neg (Nat.lt_irrefl _)]

/-- **A prefix is trimmed to the longest run of characters that fits.** -/
theorem trimTrailing_take (cs : List Char) (budget : ℕ) (h : budget < (encodeChars cs).length) :
    ∃ p, LongestPrefix budget cs p ∧
      trimTrailingPartialUtf8 ((encodeChars cs).take budget) = encodeChars p := by
  have hlength : ((encodeChars cs).take budget).length = budget := List.length_take_of_le (by omega)
  have hcut := exists_cut cs budget
  generalize (encodeChars cs).take budget = x at hcut hlength ⊢
  generalize (encodeChars cs).drop budget = y at hcut
  cases hcut with
  | between front back hsplit =>
    refine ⟨front, ?_, trimTrailing_encodeChars front⟩
    cases back with
    | nil =>
      rw [List.append_nil] at hsplit
      rw [hsplit] at hlength
      omega
    | cons c back =>
      rw [← hsplit]
      have := encodeChar_length_pos c
      exact longestPrefix_of_next (by omega) (by omega)
  | @inside front back c q r hsplit hqr hq hr =>
    obtain ⟨lead, conts, hc, hlead, hconts⟩ := encodeChar_shape c
    have hrlength : 0 < r.length := List.length_pos_of_ne_nil hr
    have hclength : q.length + r.length = (encodeChar c).length := by
      rw [← hqr, List.length_append]
    rw [List.length_append] at hlength
    refine ⟨front, ?_, ?_⟩
    · rw [← hsplit]
      exact longestPrefix_of_next (by omega) (by omega)
    · cases q with
      | nil => exact absurd rfl hq
      | cons b q =>
        rw [hc, List.cons_append] at hqr
        obtain ⟨rfl, htail⟩ := List.cons.inj hqr
        have hshort : q.length < conts.length := by
          rw [← htail, List.length_append]
          omega
        have hqconts : ∀ b ∈ q, isContinuation b = true := fun b hb ↦
          hconts b (htail ▸ List.mem_append_left r hb)
        rw [trimTrailing_eq _ hlead hqconts (Nat.le_of_lt hshort), if_pos hshort]

theorem trimLeading_append {r : List UInt8} (hr : ∀ b ∈ r, isContinuation b = true)
    (cs : List Char) : trimLeadingContinuationUtf8 (r ++ encodeChars cs) = encodeChars cs := by
  have hstop : (encodeChars cs).dropWhile isContinuation = encodeChars cs := by
    cases cs with
    | nil => rfl
    | cons c cs =>
      obtain ⟨lead, conts, hc, hlead, -⟩ := encodeChar_shape c
      rw [encodeChars_cons, hc, List.cons_append, List.dropWhile_cons_of_neg]
      rw [hlead.not_continuation]
      exact Bool.false_ne_true
  rw [trimLeadingContinuationUtf8, List.dropWhile_append_of_pos hr, hstop]

/-- **A suffix is trimmed to the longest run of characters that fits.** -/
theorem trimLeading_drop (cs : List Char) (budget : ℕ) (h : budget < (encodeChars cs).length) :
    ∃ p, LongestSuffix budget cs p ∧
      trimLeadingContinuationUtf8
        ((encodeChars cs).drop ((encodeChars cs).length - budget)) = encodeChars p := by
  have hlength : ((encodeChars cs).drop ((encodeChars cs).length - budget)).length = budget := by
    rw [List.length_drop]
    omega
  have hcut := exists_cut cs ((encodeChars cs).length - budget)
  have htaken : ((encodeChars cs).take ((encodeChars cs).length - budget)).length =
      (encodeChars cs).length - budget := List.length_take_of_le (by omega)
  generalize (encodeChars cs).take ((encodeChars cs).length - budget) = x at hcut htaken
  generalize (encodeChars cs).drop ((encodeChars cs).length - budget) = y at hcut hlength ⊢
  cases hcut with
  | between front back hsplit =>
    refine ⟨back, ?_, trimLeading_append (fun b hb ↦ absurd hb List.not_mem_nil) back⟩
    rcases List.eq_nil_or_concat front with rfl | ⟨front, c, rfl⟩
    · rw [encodeChars_nil, List.length_nil] at htaken
      omega
    · rw [← hsplit, List.concat_eq_append, List.append_assoc, List.singleton_append]
      have := encodeChar_length_pos c
      exact longestSuffix_of_previous (by omega) (by omega)
  | @inside front back c q r hsplit hqr hq hr =>
    obtain ⟨lead, conts, hc, hlead, hconts⟩ := encodeChar_shape c
    have hqlength : 0 < q.length := List.length_pos_of_ne_nil hq
    have hclength : q.length + r.length = (encodeChar c).length := by
      rw [← hqr, List.length_append]
    rw [List.length_append] at hlength
    refine ⟨back, ?_, ?_⟩
    · rw [← hsplit]
      exact longestSuffix_of_previous (by omega) (by omega)
    · refine trimLeading_append (fun b hb ↦ ?_) back
      cases q with
      | nil => exact absurd rfl hq
      | cons a q =>
        rw [hc, List.cons_append] at hqr
        exact hconts b ((List.cons.inj hqr).2 ▸ List.mem_append_right q hb)

/-! ## Exactness -/

/-- The characters a strategy is to keep: all of them if they fit, else the longest prefix and the
longest suffix. -/
def Keeps (strategy : TextRetentionStrategy) (cs p q : List Char) : Prop :=
  if (encodeChars cs).length ≤ strategy.prefixCap + strategy.suffixCap then p = cs ∧ q = []
  else LongestPrefix strategy.prefixCap cs p ∧ LongestSuffix strategy.suffixCap cs q

/-- What is to be returned of valid text. -/
structure ExactText (strategy : TextRetentionStrategy) (cs : List Char) (r : RetainedText) :
    Prop where
  text : ∃ p q, Keeps strategy cs p q ∧ r.text = (p ++ q).flatMap utf16
  introduces : replacement ∈ codePoints r.text → replacement ∈ cs
  length : (encodeUtf8 r.text).length + r.omittedBytes.count = (encodeChars cs).length

/-- **What is retained, chunk by chunk**: the result does not depend on the chunks, it is exact
where the stream is valid, and no more than the suffix budget is held between two pushes. -/
structure RetainsExactly (strategy : TextRetentionStrategy) (chunks : List (List UInt8)) :
    Prop where
  independent : ∀ chunks' : List (List UInt8), chunks'.flatten = chunks.flatten →
    retain strategy chunks' = retain strategy chunks
  exact : ∀ cs, encodeChars cs = chunks.flatten → ExactText strategy cs (retain strategy chunks)
  held : ∀ pushed, pushed <+: chunks →
    ((TextRetainer.new strategy).pushAll pushed).suffixChunks.flatten.length ≤ strategy.suffixCap

/-- No piece of the text that is to be kept begins with a byte order mark. -/
def KeepsNoMark (strategy : TextRetentionStrategy) (s : List UInt8) : Prop :=
  ∀ cs p q, encodeChars cs = s → Keeps strategy cs p q →
    p.head? ≠ some byteOrderMark ∧ q.head? ≠ some byteOrderMark

theorem Keeps.exists (strategy : TextRetentionStrategy) (cs : List Char) :
    ∃ p q, Keeps strategy cs p q := by
  by_cases hfits : (encodeChars cs).length ≤ strategy.prefixCap + strategy.suffixCap
  · exact ⟨cs, [], by rw [Keeps, if_pos hfits]; exact ⟨rfl, rfl⟩⟩
  · obtain ⟨p, hp, -⟩ := trimTrailing_take cs strategy.prefixCap (by omega)
    obtain ⟨q, hq, -⟩ := trimLeading_drop cs strategy.suffixCap (by omega)
    exact ⟨p, q, by rw [Keeps, if_neg hfits]; exact ⟨hp, hq⟩⟩

theorem Keeps.unique {strategy : TextRetentionStrategy} {cs p q p' q' : List Char}
    (h : Keeps strategy cs p q) (h' : Keeps strategy cs p' q') : p = p' ∧ q = q' := by
  rw [Keeps] at h h'
  split_ifs at h h'
  · exact ⟨h.1.trans h'.1.symm, h.2.trans h'.2.symm⟩
  · exact ⟨h.1.unique h'.1, h.2.unique h'.2⟩

theorem Keeps.subset {strategy : TextRetentionStrategy} {cs p q : List Char}
    (h : Keeps strategy cs p q) : p ++ q ⊆ cs := by
  rw [Keeps] at h
  split_ifs at h
  · rw [h.1, h.2, List.append_nil]
    exact List.Subset.refl cs
  · exact List.append_subset.mpr ⟨h.1.isPrefix.subset, h.2.isSuffix.subset⟩

theorem decode_encodeChars (cs : List Char) :
    decode (encodeChars cs) = (stripByteOrderMark cs).flatMap utf16 := by
  rw [decode, encodeChars, decodeChars_flatMap]

/-- What is returned of valid text: what is to be kept, but for the marks. -/
theorem retainedText_encodeChars {strategy : TextRetentionStrategy} {cs p q : List Char}
    (h : Keeps strategy cs p q) :
    (retainedText strategy (encodeChars cs)).text =
        (stripByteOrderMark p ++ stripByteOrderMark q).flatMap utf16 ∧
      (encodeChars (p ++ q)).length +
        (retainedText strategy (encodeChars cs)).omittedBytes.count = (encodeChars cs).length := by
  rw [retainedText]
  rw [Keeps] at h
  by_cases hfits : (encodeChars cs).length ≤ strategy.prefixCap + strategy.suffixCap
  · rw [if_pos hfits] at h ⊢
    obtain ⟨rfl, rfl⟩ := h
    rw [List.append_nil]
    refine ⟨?_, rfl⟩
    change decode (encodeChars p) = (stripByteOrderMark p ++ []).flatMap utf16
    rw [decode_encodeChars, List.append_nil]
  · rw [if_neg hfits] at h ⊢
    obtain ⟨p', hp', htrailing⟩ := trimTrailing_take cs strategy.prefixCap (by omega)
    obtain ⟨q', hq', hleading⟩ := trimLeading_drop cs strategy.suffixCap (by omega)
    obtain rfl := h.1.unique hp'
    obtain rfl := h.2.unique hq'
    have hp := hp'.fits
    have hq := hq'.fits
    rw [htrailing, hleading, cutText]
    refine ⟨?_, ?_⟩
    · rw [decode_encodeChars, decode_encodeChars, List.flatMap_append]
    · have hcount :
          (encodeChars cs).length - (encodeChars p).length - (encodeChars q).length ≠ 0 := by
        omega
      simp only [if_pos (Nat.pos_of_ne_zero hcount), Omitted.count, encodeChars_append,
        List.length_append]
      omega

theorem stripByteOrderMark_of_head {cs : List Char} (h : cs.head? ≠ some byteOrderMark) :
    stripByteOrderMark cs = cs := by
  cases cs with
  | nil => rfl
  | cons c cs =>
    have hc : c ≠ byteOrderMark := fun hc ↦ h (congrArg some hc)
    rw [stripByteOrderMark, if_neg hc]

theorem length_stripByteOrderMark (cs : List Char) :
    (stripByteOrderMark cs).length ≤ cs.length ∧
      ((stripByteOrderMark cs).length = cs.length → cs.head? ≠ some byteOrderMark) := by
  cases cs with
  | nil => exact ⟨Nat.le_refl _, fun _ h ↦ (nomatch h)⟩
  | cons c cs =>
    rw [stripByteOrderMark]
    split_ifs with hc
    · refine ⟨Nat.le_succ _, fun h ↦ ?_⟩
      rw [List.length_cons] at h
      omega
    · exact ⟨Nat.le_refl _, fun _ h ↦ hc (Option.some.inj h)⟩

/-- **Text retention.** A stream is retained exactly if and only if no piece of it that is kept
begins with a byte order mark, which the decoder drops. -/
theorem retainsExactly_iff (strategy : TextRetentionStrategy) (chunks : List (List UInt8)) :
    RetainsExactly strategy chunks ↔ KeepsNoMark strategy chunks.flatten := by
  constructor
  · intro h cs p q hcs hkeeps
    obtain ⟨p', q', hkeeps', htext⟩ := (h.exact cs hcs).text
    obtain ⟨rfl, rfl⟩ := hkeeps.unique hkeeps'
    rw [retain_eq, ← hcs, (retainedText_encodeChars hkeeps).1] at htext
    have hchars := congrArg codePoints htext
    rw [codePoints_flatMap, codePoints_flatMap] at hchars
    have hlength := congrArg List.length hchars
    rw [List.length_append, List.length_append] at hlength
    obtain ⟨hp, hpmark⟩ := length_stripByteOrderMark p
    obtain ⟨hq, hqmark⟩ := length_stripByteOrderMark q
    exact ⟨hpmark (by omega), hqmark (by omega)⟩
  · intro h
    refine ⟨fun chunks' hsame ↦ ?_, fun cs hcs ↦ ?_, fun pushed _ ↦ ?_⟩
    · rw [retain_eq, retain_eq, hsame]
    · obtain ⟨p, q, hkeeps⟩ := Keeps.exists strategy cs
      obtain ⟨hp, hq⟩ := h cs p q hcs hkeeps
      obtain ⟨htext, hlength⟩ := retainedText_encodeChars hkeeps
      rw [stripByteOrderMark_of_head hp, stripByteOrderMark_of_head hq] at htext
      rw [retain_eq, ← hcs]
      refine ⟨⟨p, q, hkeeps, htext⟩, ?_, ?_⟩
      · rw [htext, codePoints_flatMap]
        exact fun hmem ↦ hkeeps.subset hmem
      · rw [htext, encodeUtf8, codePoints_flatMap]
        exact hlength
    · obtain ⟨hholds, -, hcap⟩ := (TextRetainer.holds_new strategy).pushAll pushed
      have hlast := hholds.heldSuffix.2
      rw [hcap] at hlast
      have hnew : (TextRetainer.new strategy).suffixCap = strategy.suffixCap := rfl
      omega

/-- A file that begins with a byte order mark fits the budget and comes back without it. -/
theorem byteOrderMark_lost :
    ¬ RetainsExactly (.head 10) [[0xEF, 0xBB, 0xBF, 0x41]] := by
  intro h
  have hexact := (h.exact [byteOrderMark, 'A'] (by decide)).length
  exact absurd hexact (by decide)

end XxAgent.Output
