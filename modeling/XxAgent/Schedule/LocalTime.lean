import XxAgent.Schedule.Calendar

/-!
# Local wall-clock times

A time zone is known by the offset that it has at an instant. The instants that show a wall-clock
time are looked for by the offsets at five instants around it: offsets change so rarely that no
other offset can belong to such an instant.
-/

namespace XxAgent.Schedule

open Ecma

/-- A time zone: an offset for each instant, of at most 26 hours, which changes at most once in any
five days. -/
structure TimeZone where
  offset : ℤ → ℤ
  bounded : ∀ instant, |offset instant| ≤ 93600000
  settled : ∀ start, ∃ change, ∀ instant, start ≤ instant → instant ≤ start + 432000000 →
    offset instant = if instant < change then offset start else offset (start + 432000000)

/-- The local fields of an instant, and the offset that produced them. -/
def localProjection (zone : TimeZone) (epoch : ℤ) : CalendarParts × ℤ :=
  (calendarParts (epoch + zone.offset epoch), zone.offset epoch)

/-- The offsets at the instants around a wall-clock value that is read as UTC, each once. -/
def sampledOffsets (zone : TimeZone) (localEpoch : ℤ) : List ℤ :=
  ([-172800000, -86400000, 0, 86400000, 172800000].map fun delta ↦
    (localProjection zone
      (min maxFourDigitYearMs (max minFourDigitYearMs (localEpoch + delta)))).2).eraseDups

/-- The instants of these offsets that show the fields. -/
def candidates (zone : TimeZone) (parts : CalendarParts) (localEpoch : ℤ) : List ℤ :=
  ((sampledOffsets zone localEpoch).map (localEpoch - ·)).filter fun candidate ↦
    Representable candidate ∧ (localProjection zone candidate).1 = parts

/-- A local wall-clock value: the first instant in an overlap, and none in a gap. -/
def resolveLocalInstant (zone : TimeZone) (parts : CalendarParts) :
    Except ScheduleInputError ℤ :=
  (calendarEpoch parts).bind fun localEpoch ↦
    match ((candidates zone parts localEpoch).insertionSort (· ≤ ·)).head? with
    | some first => .ok first
    | none =>
      if (sampledOffsets zone localEpoch).any
          fun offset ↦ ¬ Representable (localEpoch - offset) then
        .error ⟨.timeOutOfRange, js "The scheduled time must be representable as a " ++
          js "four-digit-year RFC 3339 UTC instant."⟩
      else .error ⟨.invalidRule, js "The local at time does not exist in the selected time zone."⟩

/-- The representable instants that show the fields. -/
def Shown (zone : TimeZone) (parts : CalendarParts) : Set ℤ :=
  {instant | Representable instant ∧ (localProjection zone instant).1 = parts}

variable {zone : TimeZone} {localEpoch : ℤ}

theorem shown_iff {instant : ℤ} : instant ∈ Shown zone (calendarParts localEpoch) ↔
    Representable instant ∧ instant + zone.offset instant = localEpoch := by
  refine and_congr_right fun _ ↦ ⟨fun h ↦ calendarParts_injective h, fun h ↦ ?_⟩
  rw [localProjection, h]

/-- **The offset of an instant that shows the time is sampled**: between the first and the last
sample the offset changes at most once. -/
theorem offset_mem_sampledOffsets {instant : ℤ} (hin : Representable instant)
    (hshows : instant + zone.offset instant = localEpoch) :
    zone.offset instant ∈ sampledOffsets zone localEpoch := by
  have hbound := abs_le.mp (zone.bounded instant)
  obtain ⟨hmin, hmax⟩ := hin
  rw [sampledOffsets, List.mem_eraseDups, List.mem_map]
  obtain ⟨change, hsettled⟩ := zone.settled
    (min maxFourDigitYearMs (max minFourDigitYearMs (localEpoch + -172800000)))
  have hrange : minFourDigitYearMs ≤ maxFourDigitYearMs := by decide
  have hfirst := hsettled instant (by omega) (by omega)
  have hlast := hsettled (min maxFourDigitYearMs (max minFourDigitYearMs (localEpoch + 172800000)))
    (by omega) (by omega)
  by_cases hchange : instant < change
  · rw [if_pos hchange] at hfirst
    exact ⟨-172800000, by simp, hfirst.symm⟩
  · have hlate : ¬ min maxFourDigitYearMs (max minFourDigitYearMs (localEpoch + 172800000))
        < change := by omega
    rw [if_neg hchange] at hfirst
    rw [if_neg hlate] at hlast
    exact ⟨172800000, by simp, hlast.trans hfirst.symm⟩

/-- The candidates are the instants that show the time. -/
theorem mem_candidates {instant : ℤ} :
    instant ∈ candidates zone (calendarParts localEpoch) localEpoch ↔
      instant ∈ Shown zone (calendarParts localEpoch) := by
  rw [candidates, List.mem_filter, decide_eq_true_iff]
  refine ⟨And.right, fun h ↦ ⟨?_, h⟩⟩
  obtain ⟨hin, hshows⟩ := shown_iff.mp h
  exact List.mem_map.mpr ⟨zone.offset instant, offset_mem_sampledOffsets hin hshows, by omega⟩

theorem resolveLocalInstant_spec (zone : TimeZone) {parts : CalendarParts}
    (hreal : ∃ localEpoch, Representable localEpoch ∧ calendarParts localEpoch = parts) :
    match resolveLocalInstant zone parts with
    | .ok instant => IsLeast (Shown zone parts) instant
    | .error _ => Shown zone parts = ∅ := by
  obtain ⟨localEpoch, hrepresentable, rfl⟩ := hreal
  have hempty (h : candidates zone (calendarParts localEpoch) localEpoch = []) :
      Shown zone (calendarParts localEpoch) = ∅ := by
    refine Set.eq_empty_iff_forall_notMem.mpr fun instant hin ↦ ?_
    have := mem_candidates.mpr hin
    rw [h] at this
    cases this
  rw [resolveLocalInstant, calendarEpoch_calendarParts hrepresentable, Except.bind]
  cases hsorted : (candidates zone (calendarParts localEpoch) localEpoch).insertionSort (· ≤ ·) with
  | nil =>
    have hnil : candidates zone (calendarParts localEpoch) localEpoch = [] := by
      have := (List.perm_insertionSort (· ≤ ·)
        (candidates zone (calendarParts localEpoch) localEpoch)).symm
      rw [hsorted] at this
      exact this.eq_nil
    dsimp only [List.head?_nil]
    split_ifs
    · exact hempty hnil
    · exact hempty hnil
  | cons first rest =>
    have hmem (instant : ℤ) : instant ∈ first :: rest ↔
        instant ∈ Shown zone (calendarParts localEpoch) := by
      rw [← hsorted, List.mem_insertionSort, mem_candidates]
    have hpairwise := List.pairwise_insertionSort (· ≤ ·)
      (candidates zone (calendarParts localEpoch) localEpoch)
    rw [hsorted, List.pairwise_cons] at hpairwise
    dsimp only [List.head?_cons]
    refine ⟨(hmem first).mp List.mem_cons_self, fun instant hin ↦ ?_⟩
    rcases List.mem_cons.mp ((hmem instant).mpr hin) with rfl | hrest
    · exact le_refl _
    · exact hpairwise.1 instant hrest

/-- **The earliest instant that shows the time**, and a failure exactly if there is none. -/
theorem resolveLocalInstant_isLeast (zone : TimeZone) {parts : CalendarParts}
    (hreal : ∃ localEpoch, Representable localEpoch ∧ calendarParts localEpoch = parts) :
    (∀ instant, resolveLocalInstant zone parts = .ok instant ↔
        IsLeast (Shown zone parts) instant) ∧
      ((∃ e, resolveLocalInstant zone parts = .error e) ↔ Shown zone parts = ∅) := by
  have hspec := @resolveLocalInstant_spec zone parts hreal
  cases h : resolveLocalInstant zone parts with
  | ok first =>
    rw [h] at hspec
    refine ⟨fun instant ↦ ⟨?_, fun hleast ↦ ?_⟩, ?_, fun hempty ↦ ?_⟩
    · rintro ⟨⟩
      exact hspec
    · rw [hspec.unique hleast]
    · rintro ⟨e, ⟨⟩⟩
    · exact absurd hspec.1 (hempty ▸ Set.notMem_empty first)
  | error e =>
    rw [h] at hspec
    refine ⟨fun instant ↦ ⟨?_, fun hleast ↦ ?_⟩, fun _ ↦ hspec, fun _ ↦ ⟨e, rfl⟩⟩
    · rintro ⟨⟩
    · exact absurd hleast.1 (hspec ▸ Set.notMem_empty instant)

/-- A zone that is set back by an hour, once. -/
def setBack (change : ℤ) : TimeZone where
  offset instant := if instant < change then 7200000 else 3600000
  bounded instant := by split_ifs <;> decide
  settled start := by
    refine ⟨change, fun instant hstart hend ↦ ?_⟩
    split_ifs <;> first | rfl | omega

/-- Half past two is shown twice on the day on which three o'clock is two again. -/
theorem resolveLocalInstant_setBack :
    IsLeast (Shown (setBack 1761440400000) ⟨2025, 10, 26, 2, 30, 0, 0⟩) 1761438600000 ∧
      1761442200000 ∈ Shown (setBack 1761440400000) ⟨2025, 10, 26, 2, 30, 0, 0⟩ := by
  have hreal : ∃ localEpoch, Representable localEpoch ∧
      calendarParts localEpoch = ⟨2025, 10, 26, 2, 30, 0, 0⟩ :=
    ⟨1761445800000, by decide +kernel, by decide +kernel⟩
  have hresolved : (resolveLocalInstant (setBack 1761440400000)
      ⟨2025, 10, 26, 2, 30, 0, 0⟩).toOption = some 1761438600000 := by decide +kernel
  have hok : resolveLocalInstant (setBack 1761440400000) ⟨2025, 10, 26, 2, 30, 0, 0⟩
      = .ok 1761438600000 := by
    cases h : resolveLocalInstant (setBack 1761440400000) ⟨2025, 10, 26, 2, 30, 0, 0⟩ with
    | error e =>
      rw [h] at hresolved
      cases hresolved
    | ok instant =>
      rw [h] at hresolved
      rw [Option.some.inj hresolved]
  exact ⟨((resolveLocalInstant_isLeast _ hreal).1 _).mp hok, by decide +kernel, by decide +kernel⟩

end XxAgent.Schedule
