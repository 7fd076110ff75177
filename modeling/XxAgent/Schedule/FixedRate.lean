import XxAgent.Schedule.Fold
import XxAgent.Schedule.Calendar
import Mathlib.Data.Rat.Floor

/-!
# Fixed rates

The occurrences of a fixed-rate record are its target and what follows it at its interval. A
decision finds the last of them that is not in the future, and the first that is, without going
through those that were missed; the targets of a record go on in this one progression.
-/

namespace XxAgent.Schedule

open Ecma

/-! ## Occurrences -/

/-- `target`, `target + interval`, and so on. -/
def Occurrences (target interval : ℤ) : Set ℤ := {t | ∃ n : ℕ, t = target + n * interval}

section Progression

variable {target interval instant t : ℤ}

theorem target_mem_occurrences : target ∈ Occurrences target interval := ⟨0, by simp⟩

theorem le_of_mem_occurrences (hpos : 0 < interval) (h : t ∈ Occurrences target interval) :
    target ≤ t := by
  obtain ⟨n, rfl⟩ := h
  have := mul_nonneg (Int.natCast_nonneg n) hpos.le
  omega

theorem mem_occurrences_trans {s : ℤ} (hs : s ∈ Occurrences target interval)
    (ht : t ∈ Occurrences s interval) : t ∈ Occurrences target interval := by
  obtain ⟨m, rfl⟩ := hs
  obtain ⟨n, rfl⟩ := ht
  exact ⟨m + n, by push_cast; ring⟩

/-- The last occurrence that is not after an instant. -/
theorem isGreatest_occurrence (hpos : 0 < interval) (h : target ≤ instant) :
    IsGreatest {t ∈ Occurrences target interval | t ≤ instant}
      (target + (instant - target) / interval * interval) := by
  have hquotient : 0 ≤ (instant - target) / interval := Int.ediv_nonneg (by omega) hpos.le
  have hle := Int.ediv_mul_le (instant - target) hpos.ne'
  refine ⟨⟨⟨((instant - target) / interval).toNat, ?_⟩, by omega⟩, ?_⟩
  · rw [Int.toNat_of_nonneg hquotient]
  · rintro t ⟨⟨n, rfl⟩, ht⟩
    have hn : (n : ℤ) ≤ (instant - target) / interval :=
      (Int.le_ediv_iff_mul_le hpos).mpr (by omega)
    have := mul_le_mul_of_nonneg_right hn hpos.le
    omega

/-- The first occurrence after an instant. -/
theorem isLeast_next (hpos : 0 < interval) (h : target ≤ instant) :
    IsLeast {t ∈ Occurrences target interval | instant < t}
      (target + (instant - target) / interval * interval + interval) := by
  have hquotient : 0 ≤ (instant - target) / interval := Int.ediv_nonneg (by omega) hpos.le
  have hlt := Int.lt_ediv_add_one_mul_self (instant - target) hpos
  rw [add_mul, one_mul] at hlt
  refine ⟨⟨⟨((instant - target) / interval).toNat + 1, ?_⟩, by omega⟩, ?_⟩
  · push_cast
    rw [Int.toNat_of_nonneg hquotient]
    ring
  · rintro t ⟨⟨n, rfl⟩, ht⟩
    have hn : (instant - target) / interval < n :=
      (Int.ediv_lt_iff_lt_mul hpos).mpr (by omega)
    have := mul_le_mul_of_nonneg_right (Int.add_one_le_of_lt hn) hpos.le
    rw [add_mul, one_mul] at this
    omega

end Progression

/-! ## The quotient -/

/-- A rounding of quotients, as the numbers of the language round them. -/
structure Rounding where
  round : ℚ → ℚ
  mono : Monotone round
  integer : ∀ n : ℤ, Number.IsSafe n → round n = n
  error : ∀ q : ℚ, 1 / 2 ^ 53 ≤ q → round q ≤ q + q / 2 ^ 53

/-- **The floor of a rounded quotient is the integer quotient**: a quotient that is not an integer
keeps so far from the next one that rounding does not reach it. -/
theorem Rounding.floor_div (r : Rounding) {a b : ℤ} (ha : 0 ≤ a) (hsafe : Number.IsSafe a)
    (hb : 0 < b) (hsafe' : Number.IsSafe b) : ⌊r.round (a / b)⌋ = a / b := by
  have hbq : (0 : ℚ) < b := by exact_mod_cast hb
  have hquotient : 0 ≤ a / b := Int.ediv_nonneg ha hb.le
  have hle : a / b * b ≤ a := Int.ediv_mul_le a hb.ne'
  have hlt := Int.lt_ediv_add_one_mul_self a hb
  rw [Int.floor_eq_iff]
  constructor
  · have hq : Number.IsSafe (a / b) := by
      have := Int.ediv_le_self b ha
      rw [Number.IsSafe] at hsafe ⊢
      omega
    rw [← r.integer (a / b) hq]
    exact r.mono ((le_div_iff₀ hbq).mpr (by exact_mod_cast hle))
  · rcases ha.eq_or_lt with rfl | hpos
    · have hzero := r.integer 0 (by decide)
      rw [Int.cast_zero] at hzero
      rw [Int.cast_zero, zero_div, hzero, Int.zero_ediv]
      norm_num
    · have haq : (1 : ℚ) ≤ a := by exact_mod_cast hpos
      have habove : (a : ℚ) + 1 ≤ ((a / b : ℤ) + 1) * b := by exact_mod_cast hlt
      have hsmall : (a : ℚ) / 2 ^ 53 < 1 := by
        rw [div_lt_one (by norm_num)]
        have : a < 2 ^ 53 := by
          rw [Number.IsSafe, Number.maxSafe] at hsafe
          omega
        exact_mod_cast this
      have hnormal : (1 : ℚ) / 2 ^ 53 ≤ a / b := by
        have : b ≤ 2 ^ 53 := by
          rw [Number.IsSafe, Number.maxSafe] at hsafe'
          omega
        exact div_le_div₀ (by positivity) haq hbq (by exact_mod_cast this)
      calc r.round (a / b) ≤ a / b + a / b / 2 ^ 53 := r.error _ hnormal
        _ = (a + a / 2 ^ 53) / b := by ring
        _ < (a + 1) / b := by gcongr
        _ ≤ (a / b : ℤ) + 1 := (div_le_iff₀ hbq).mpr habove

/-! ## One decision -/

/-- The values that a decision goes through, but for the sum that leads to the next target. -/
def intermediateValues (target interval acceptedAt : ℤ) : List ℤ :=
  [interval, acceptedAt - target, (acceptedAt - target) / interval,
    (acceptedAt - target) / interval * interval,
    target + (acceptedAt - target) / interval * interval]

/-- A decision is what enumerating the occurrences leads to. -/
structure Enumerates (target interval acceptedAt : ℤ) (decision : EveryOccurrence) : Prop where
  latest : IsGreatest {t ∈ Occurrences target interval | t ≤ acceptedAt} decision.occurrenceAt
  next : ∀ t, decision.nextScheduledAt = some t ↔
    IsLeast {t ∈ Occurrences target interval | acceptedAt < t} t ∧ t ≤ maxFourDigitYearMs
  safe : ∀ v ∈ intermediateValues target interval acceptedAt, Number.IsSafe v
  steps (r : Rounding) :
    ⌊r.round ((acceptedAt - target : ℤ) / interval)⌋ = (acceptedAt - target) / interval
  /-- The texts that are stored and shown read back. -/
  texts : parseInstant (toISOString decision.occurrenceAt) = decision.occurrenceAt ∧
    ∀ t ∈ decision.nextScheduledAt, parseInstant (toISOString t) = t

/-- A fixed-rate record that the decoder admits. -/
structure Admitted (record : ScheduleRecord) (seconds : ℤ) : Prop where
  kind : record.kind = .every seconds
  pos : 0 < seconds * 1000
  safe : Number.IsSafe (seconds * 1000)
  target : Representable record.scheduledAt

theorem admitted_of_decode {record decoded : ScheduleRecord} {seconds : ℤ}
    (hkind : record.kind = .every seconds) (h : decodeScheduleRecord record = .ok decoded) :
    Admitted record seconds := by
  rw [decodeScheduleRecord, hkind] at h
  dsimp only at h
  rw [decodeRecord] at h
  split_ifs at h with hprompt hruled
  obtain ⟨-, hmin, hsafe⟩ := hruled
  obtain ⟨-, -, h⟩ := bind_eq_ok h
  obtain ⟨instant, hinstant, -⟩ := map_eq_ok h
  rw [decodeInstant] at hinstant
  split_ifs at hinstant with htarget
  exact ⟨hkind, by omega, (Number.isSafe_round_iff _).mp hsafe, htarget⟩

theorem isSafe_of_representable {instant : ℤ} (h : Representable instant) :
    Number.IsSafe instant := by
  rw [Representable, minFourDigitYearMs, maxFourDigitYearMs] at h
  rw [Number.IsSafe, Number.maxSafe]
  omega

variable {record : ScheduleRecord} {seconds acceptedAt : ℤ}

theorem Admitted.isSafe_intermediateValues (h : Admitted record seconds)
    (haccepted : Representable acceptedAt) (hdue : record.scheduledAt ≤ acceptedAt) :
    ∀ v ∈ intermediateValues record.scheduledAt (seconds * 1000) acceptedAt,
      Number.IsSafe v := by
  have hquotient : 0 ≤ (acceptedAt - record.scheduledAt) / (seconds * 1000) :=
    Int.ediv_nonneg (by omega) h.pos.le
  have hself := Int.ediv_le_self (seconds * 1000)
    (show 0 ≤ acceptedAt - record.scheduledAt by omega)
  have hle := Int.ediv_mul_le (acceptedAt - record.scheduledAt) h.pos.ne'
  have hproduct := mul_nonneg hquotient h.pos.le
  obtain ⟨htarget, -⟩ := h.target
  obtain ⟨-, haccepted⟩ := haccepted
  have hsafe := h.safe
  rw [minFourDigitYearMs] at htarget
  rw [maxFourDigitYearMs] at haccepted
  simp only [intermediateValues, List.mem_cons, List.not_mem_nil, or_false, forall_eq_or_imp,
    forall_eq, Number.IsSafe, Number.maxSafe] at hsafe ⊢
  omega

/-- **A decision is the enumeration**, and is never refused when the record is due. -/
theorem Admitted.resolve (h : Admitted record seconds) (haccepted : Representable acceptedAt)
    (hdue : record.scheduledAt ≤ acceptedAt) :
    ∃ decision, resolveEveryOccurrence record.scheduledAt seconds acceptedAt = .ok decision ∧
      Enumerates record.scheduledAt (seconds * 1000) acceptedAt decision := by
  have hsafe := h.isSafe_intermediateValues haccepted hdue
  have hlatest := isGreatest_occurrence h.pos hdue
  have hnext := isLeast_next h.pos hdue
  have hinterval : Number.roundToDouble (seconds * 1000) = seconds * 1000 :=
    Number.roundToDouble_of_isSafe h.safe
  have hoccurrence := hsafe (record.scheduledAt +
    (acceptedAt - record.scheduledAt) / (seconds * 1000) * (seconds * 1000))
    (by simp [intermediateValues])
  have hdifference := hsafe (acceptedAt - record.scheduledAt) (by simp [intermediateValues])
  rw [resolveEveryOccurrence, hinterval]
  dsimp only
  rw [if_neg (not_not.mpr ⟨isSafe_of_representable haccepted, haccepted⟩),
    if_neg (not_not.mpr ⟨h.safe, h.pos⟩), if_neg (by omega)]
  have hlow := le_of_mem_occurrences h.pos hlatest.1.1
  have hhigh : record.scheduledAt +
    (acceptedAt - record.scheduledAt) / (seconds * 1000) * (seconds * 1000) ≤ acceptedAt :=
    hlatest.1.2
  have hquotient (r : Rounding) :
      ⌊r.round ((acceptedAt - record.scheduledAt : ℤ) / (seconds * 1000 : ℤ))⌋ =
        (acceptedAt - record.scheduledAt) / (seconds * 1000) :=
    r.floor_div (by omega) hdifference h.pos h.safe
  generalize record.scheduledAt +
    (acceptedAt - record.scheduledAt) / (seconds * 1000) * (seconds * 1000) = occurrence at *
  rw [if_neg (fun hbad ↦ hbad.elim (absurd hoccurrence) (by omega))]
  have hrepresentable : Representable occurrence := ⟨h.target.1.trans hlow, hhigh.trans haccepted.2⟩
  have hround : Number.IsSafe (Number.roundToDouble (occurrence + seconds * 1000)) ↔
      Number.IsSafe (occurrence + seconds * 1000) := Number.isSafe_round_iff _
  have hfuture : acceptedAt < occurrence + seconds * 1000 := hnext.1.2
  -- A sum that is not safe is beyond the calendar as well.
  have hsome (t : ℤ) :
      (if ¬ Number.IsSafe (Number.roundToDouble (occurrence + seconds * 1000)) ∨
          maxFourDigitYearMs < Number.roundToDouble (occurrence + seconds * 1000) then none
        else some (Number.roundToDouble (occurrence + seconds * 1000))) = some t ↔
      IsLeast {t ∈ Occurrences record.scheduledAt (seconds * 1000) | acceptedAt < t} t ∧
        t ≤ maxFourDigitYearMs := by
    have hunique :
        IsLeast {t ∈ Occurrences record.scheduledAt (seconds * 1000) | acceptedAt < t} t ↔
          occurrence + seconds * 1000 = t := ⟨hnext.unique, fun heq ↦ heq ▸ hnext⟩
    rw [hunique]
    by_cases hsum : Number.IsSafe (occurrence + seconds * 1000)
    · rw [Number.roundToDouble_of_isSafe hsum]
      split_ifs with hlate
      · refine ⟨fun heq ↦ absurd heq (by simp), ?_⟩
        rintro ⟨rfl, hend⟩
        exact absurd hend (hlate.resolve_left (not_not.mpr hsum)).not_ge
      · rw [Option.some_inj]
        refine ⟨fun heq ↦ ⟨heq, ?_⟩, And.left⟩
        omega
    · rw [if_pos (.inl (mt hround.mp hsum))]
      simp only [reduceCtorEq, false_iff, not_and]
      rintro rfl hend
      refine hsum (isSafe_of_representable ⟨haccepted.1.trans hfuture.le, hend⟩)
  refine ⟨_, rfl, hlatest, hsome, hsafe, hquotient, parseInstant_toISOString hrepresentable,
    fun t ht ↦ ?_⟩
  obtain ⟨hleast, hend⟩ := (hsome t).mp ht
  exact parseInstant_toISOString ⟨haccepted.1.trans (le_of_lt hleast.1.2), hend⟩

/-! ## Folding dispatches -/

/-- A dispatch, with the record that it was for and what was decided. -/
structure Dispatch where
  record : ScheduleRecord
  acceptedAt : ℤ
  decision : EveryOccurrence

/-- The dispatch of an id by an event. -/
def dispatchOf (id : ScheduleId) (folded : FoldedSchedules) : SessionEvent → Option Dispatch
  | .change (.dispatch target (some acceptedAt)) =>
    if target = id then do
      let record ← folded.active.get? id
      let everySeconds ← record.everySeconds?
      let decision ← (resolveEveryOccurrence record.scheduledAt everySeconds acceptedAt).toOption
      some ⟨record, acceptedAt, decision⟩
    else none
  | _ => none

/-- The dispatches of an id, while events are folded. -/
def dispatches (id : ScheduleId) : FoldedSchedules → List SessionEvent → List Dispatch
  | _, [] => []
  | folded, event :: events =>
    match folded.foldEvent event with
    | .error _ => []
    | .ok after => (dispatchOf id folded event).toList ++ dispatches id after events

/-- The targets of a record stay in one progression while it is dispatched, and no occurrence is
accepted twice. -/
structure FixedRate (origin : ScheduleRecord) (seconds : ℤ) (events : List SessionEvent)
    (done : List Dispatch) (remaining : Option ScheduleRecord) : Prop where
  /-- Every dispatch was decided. -/
  all : (dispatched events).count origin.id = done.length
  decided : ∀ d ∈ done, d.record.scheduledAt ≤ d.acceptedAt ∧
    Enumerates d.record.scheduledAt (seconds * 1000) d.acceptedAt d.decision
  aligned : ∀ record ∈ done.map Dispatch.record ++ remaining.toList, Admitted record seconds ∧
    record.scheduledAt ∈ Occurrences origin.scheduledAt (seconds * 1000)
  increasing : (done.map Dispatch.record ++ remaining.toList).Pairwise
    fun earlier later ↦ earlier.scheduledAt < later.scheduledAt
  once : done.Pairwise fun earlier later ↦
    earlier.decision.occurrenceAt < later.decision.occurrenceAt
  /-- What is due can be dispatched. -/
  accepts : ∀ record ∈ remaining, ∀ acceptedAt, Representable acceptedAt →
    record.scheduledAt ≤ acceptedAt → ∃ decision,
      resolveEveryOccurrence record.scheduledAt seconds acceptedAt = .ok decision ∧
      Enumerates record.scheduledAt (seconds * 1000) acceptedAt decision

variable {folded after : FoldedSchedules} {id : ScheduleId} {events : List SessionEvent}

theorem foldlM_cons_eq_ok {event : SessionEvent}
    (h : (event :: events).foldlM FoldedSchedules.foldEvent folded = .ok after) :
    ∃ next, folded.foldEvent event = .ok next ∧
      events.foldlM FoldedSchedules.foldEvent next = .ok after := by
  rw [List.foldlM_cons] at h
  exact bind_eq_ok h

theorem dispatches_cons {event : SessionEvent} {next : FoldedSchedules}
    (h : folded.foldEvent event = .ok next) : dispatches id folded (event :: events) =
      (dispatchOf id folded event).toList ++ dispatches id next events := by
  rw [dispatches, h]

theorem count_dispatched_cons (event : SessionEvent) : (dispatched (event :: events)).count id =
    (if event.dispatched? = some id then 1 else 0) + (dispatched events).count id := by
  cases h : event.dispatched? with
  | none => simp [dispatched, h]
  | some target =>
    rw [dispatched, List.filterMap_cons_some h, List.count_cons, dispatched, Nat.add_comm]
    simp

/-- A decision that is not refused is that of a record that is due. -/
theorem due_of_resolveEveryOccurrence {target : ℤ} {decision : EveryOccurrence}
    (h : resolveEveryOccurrence target seconds acceptedAt = .ok decision) :
    Representable acceptedAt ∧ target ≤ acceptedAt := by
  rw [resolveEveryOccurrence] at h
  dsimp only at h
  split_ifs at h with hrange hinterval hdue
  · exact ⟨hrange.2, not_lt.mp hdue⟩
  · exact ⟨hrange.2, not_lt.mp hdue⟩

/-- An active fixed-rate record is dispatched as decided. -/
theorem Admitted.dispatched (h : Admitted record seconds) {accepted : Option ℤ}
    {next : Option ScheduleRecord} (hnext : dispatchedRecord record accepted = .ok next) :
    ∃ acceptedAt decision, accepted = some acceptedAt ∧ record.scheduledAt ≤ acceptedAt ∧
      resolveEveryOccurrence record.scheduledAt seconds acceptedAt = .ok decision ∧
      Enumerates record.scheduledAt (seconds * 1000) acceptedAt decision ∧
      next = decision.nextScheduledAt.map fun target ↦ { record with scheduledAt := target } := by
  have hevery : record.everySeconds? = some seconds := by rw [ScheduleRecord.everySeconds?, h.kind]
  rw [dispatchedRecord.eq_def, hevery] at hnext
  cases accepted with
  | none => cases hnext
  | some acceptedAt =>
    obtain ⟨decision, hdecision, rfl⟩ := map_eq_ok hnext
    obtain ⟨hrange, hdue⟩ := due_of_resolveEveryOccurrence hdecision
    obtain ⟨decision', hdecision', henumerates⟩ := h.resolve hrange hdue
    rw [hdecision] at hdecision'
    obtain rfl := Except.ok.inj hdecision'
    exact ⟨acceptedAt, decision, rfl, hdue, hdecision, henumerates, rfl⟩

/-- What one event does to a fixed-rate record that is active. -/
inductive Meets (id : ScheduleId) (record : ScheduleRecord) (seconds : ℤ) (folded : FoldedSchedules)
    (event : SessionEvent) (next : FoldedSchedules) : Prop
  | passed (hactive : next.active.get? id = some record) (hnone : dispatchOf id folded event = none)
      (hother : event.dispatched? ≠ some id)
  | deleted (hgone : next.active.get? id = none) (hnone : dispatchOf id folded event = none)
      (hother : event.dispatched? ≠ some id)
  | dispatched (acceptedAt : ℤ) (decision : EveryOccurrence)
      (hdue : record.scheduledAt ≤ acceptedAt)
      (henumerates : Enumerates record.scheduledAt (seconds * 1000) acceptedAt decision)
      (hsome : dispatchOf id folded event = some ⟨record, acceptedAt, decision⟩)
      (hid : event.dispatched? = some id)
      (hnext : next.active.get? id =
        decision.nextScheduledAt.map fun target ↦ { record with scheduledAt := target })

theorem dispatchOf_of_ne {target : ScheduleId} {accepted : Option ℤ} (h : target ≠ id) :
    dispatchOf id folded (.change (.dispatch target accepted)) = none := by
  cases accepted with
  | none => rfl
  | some acceptedAt => rw [dispatchOf, if_neg h]

/-- The transitions by which an active record meets an event. -/
theorem meets_of_transition {event : SessionEvent} {next : FoldedSchedules}
    (h : folded.Transition event next) (hactive : folded.active.get? id = some record)
    (hseen : id ∈ folded.seenIds) (hadmitted : Admitted record seconds) :
    Meets id record seconds folded event next := by
  have hdispatch {acceptedAt : ℤ} {decision : EveryOccurrence}
      (hresolved : resolveEveryOccurrence record.scheduledAt seconds acceptedAt = .ok decision) :
      dispatchOf id folded (.change (.dispatch id (some acceptedAt))) =
        some ⟨record, acceptedAt, decision⟩ := by
    rw [dispatchOf, if_pos rfl, hactive]
    simp [ScheduleRecord.everySeconds?, hadmitted.kind, hresolved, Except.toOption]
  cases h with
  | other event => exact .passed hactive rfl (by simp [SessionEvent.dispatched?])
  | @create created hfresh =>
    have hne : id ≠ created.id := fun heq ↦ hfresh (heq ▸ hseen)
    refine .passed ?_ rfl (by simp [SessionEvent.dispatched?])
    rw [OrderedMap.get?_set, if_neg hne, hactive]
  | @delete target other hother =>
    by_cases hid : id = target
    · refine .deleted ?_ rfl (by simp [SessionEvent.dispatched?])
      rw [OrderedMap.get?_delete, if_pos hid]
    · refine .passed ?_ rfl (by simp [SessionEvent.dispatched?])
      rw [OrderedMap.get?_delete, if_neg hid, hactive]
  | @done target accepted other hother hdone =>
    by_cases hid : id = target
    · subst hid
      obtain rfl := Option.some.inj (hactive.symm.trans hother)
      obtain ⟨acceptedAt, decision, rfl, hdue, hresolved, henumerates, hnext⟩ :=
        hadmitted.dispatched hdone
      refine .dispatched acceptedAt decision hdue henumerates (hdispatch hresolved) rfl ?_
      rw [OrderedMap.get?_delete, if_pos rfl, hnext]
    · refine .passed ?_ (dispatchOf_of_ne (Ne.symm hid)) fun heq ↦ hid (Option.some.inj heq).symm
      rw [OrderedMap.get?_delete, if_neg hid, hactive]
  | @advance target accepted other next hother hadvance =>
    by_cases hid : id = target
    · subst hid
      obtain rfl := Option.some.inj (hactive.symm.trans hother)
      obtain ⟨acceptedAt, decision, rfl, hdue, hresolved, henumerates, hnext⟩ :=
        hadmitted.dispatched hadvance
      refine .dispatched acceptedAt decision hdue henumerates (hdispatch hresolved) rfl ?_
      rw [OrderedMap.get?_set, if_pos rfl, hnext]
    · refine .passed ?_ (dispatchOf_of_ne (Ne.symm hid)) fun heq ↦ hid (Option.some.inj heq).symm
      rw [OrderedMap.get?_set, if_neg hid, hactive]

theorem seenIds_of_transition {event : SessionEvent} {next : FoldedSchedules}
    (h : folded.Transition event next) (hseen : id ∈ folded.seenIds) : id ∈ next.seenIds := by
  cases h with
  | create => exact List.mem_append_left _ hseen
  | other | delete | done | advance => exact hseen

/-- An id that is seen and not active is not dispatched, and stays so. -/
theorem dispatches_of_gone (hgone : folded.active.get? id = none) (hseen : id ∈ folded.seenIds)
    (h : events.foldlM FoldedSchedules.foldEvent folded = .ok after) :
    dispatches id folded events = [] ∧ (dispatched events).count id = 0 ∧
      after.active.get? id = none := by
  induction events generalizing folded with
  | nil =>
    obtain rfl : folded = after := Except.ok.inj h
    exact ⟨rfl, rfl, hgone⟩
  | cons event events ih =>
    obtain ⟨next, hevent, hrest⟩ := foldlM_cons_eq_ok h
    have htransition := FoldedSchedules.transition_of_foldEvent hevent
    have hstep : next.active.get? id = none ∧ dispatchOf id folded event = none ∧
        event.dispatched? ≠ some id := by
      cases htransition with
      | other event => exact ⟨hgone, rfl, by simp [SessionEvent.dispatched?]⟩
      | @create created hfresh =>
        have hne : id ≠ created.id := fun heq ↦ hfresh (heq ▸ hseen)
        refine ⟨?_, rfl, by simp [SessionEvent.dispatched?]⟩
        rw [OrderedMap.get?_set, if_neg hne, hgone]
      | @delete target other hother =>
        refine ⟨?_, rfl, by simp [SessionEvent.dispatched?]⟩
        rw [OrderedMap.get?_delete, hgone, ite_self]
      | @done target accepted other hother hdone =>
        have hne : id ≠ target := by
          rintro rfl
          simp [hgone] at hother
        refine ⟨?_, dispatchOf_of_ne hne.symm, fun heq ↦ hne (Option.some.inj heq).symm⟩
        rw [OrderedMap.get?_delete, hgone, ite_self]
      | @advance target accepted other next hother hadvance =>
        have hne : id ≠ target := by
          rintro rfl
          simp [hgone] at hother
        refine ⟨?_, dispatchOf_of_ne hne.symm, fun heq ↦ hne (Option.some.inj heq).symm⟩
        rw [OrderedMap.get?_set, if_neg hne, hgone]
    obtain ⟨hgone', hnone, hother⟩ := hstep
    obtain ⟨hlist, hcount, hlast⟩ := ih hgone' (seenIds_of_transition htransition hseen) hrest
    refine ⟨?_, ?_, hlast⟩
    · rw [dispatches_cons hevent, hnone, hlist]
      rfl
    · rw [count_dispatched_cons, if_neg hother, hcount]

/-! ## Runs -/

namespace FixedRate

variable {done : List Dispatch} {remaining : Option ScheduleRecord}

theorem of_gone (hcount : (Schedule.dispatched events).count record.id = 0) :
    FixedRate record seconds events [] none where
  all := hcount
  decided d hd := absurd hd (by simp)
  aligned record hrecord := absurd hrecord (by simp)
  increasing := .nil
  once := .nil
  accepts record hrecord := absurd hrecord (by simp)

/-- Nothing has happened yet. -/
theorem start (h : Admitted record seconds) : FixedRate record seconds [] [] (some record) where
  all := rfl
  decided d hd := absurd hd (by simp)
  aligned record' hrecord := by
    obtain rfl : record' = record := by simpa using hrecord
    exact ⟨h, target_mem_occurrences⟩
  increasing := .cons (fun _ h ↦ absurd h (by simp)) .nil
  once := .nil
  accepts record' hrecord acceptedAt haccepted hdue := by
    obtain rfl := Option.some.inj hrecord
    exact h.resolve haccepted hdue

/-- An event that dispatches something else, or nothing. -/
theorem pass {event : SessionEvent} (h : FixedRate record seconds events done remaining)
    (hother : event.dispatched? ≠ some record.id) :
    FixedRate record seconds (event :: events) done remaining where
  all := by rw [count_dispatched_cons, if_neg hother, Nat.zero_add, h.all]
  decided := h.decided
  aligned := h.aligned
  increasing := h.increasing
  once := h.once
  accepts := h.accepts

/-- The last dispatch of a record. -/
theorem finish {event : SessionEvent} (hadmitted : Admitted record seconds)
    {decision : EveryOccurrence} (hid : event.dispatched? = some record.id)
    (hdue : record.scheduledAt ≤ acceptedAt)
    (henumerates : Enumerates record.scheduledAt (seconds * 1000) acceptedAt decision)
    (hcount : (Schedule.dispatched events).count record.id = 0) :
    FixedRate record seconds (event :: events) [⟨record, acceptedAt, decision⟩] none where
  all := by rw [count_dispatched_cons, if_pos hid, hcount]; rfl
  decided d hd := by
    obtain rfl := List.mem_singleton.mp hd
    exact ⟨hdue, henumerates⟩
  aligned record' hrecord := by
    obtain rfl : record' = record := by simpa using hrecord
    exact ⟨hadmitted, target_mem_occurrences⟩
  increasing := List.pairwise_singleton _ _
  once := List.pairwise_singleton _ _
  accepts record hrecord := absurd hrecord (by simp)

/-- A dispatch, and what follows from the next target on. -/
theorem advance {event : SessionEvent} (hadmitted : Admitted record seconds)
    {decision : EveryOccurrence} {next : ℤ} (hid : event.dispatched? = some record.id)
    (hdue : record.scheduledAt ≤ acceptedAt)
    (henumerates : Enumerates record.scheduledAt (seconds * 1000) acceptedAt decision)
    (hnext : decision.nextScheduledAt = some next)
    (h : FixedRate { record with scheduledAt := next } seconds events done remaining) :
    FixedRate record seconds (event :: events) (⟨record, acceptedAt, decision⟩ :: done)
      remaining := by
  obtain ⟨⟨⟨hprogression, hfuture⟩, -⟩, -⟩ := (henumerates.next next).mp hnext
  have hlater (record' : ScheduleRecord)
      (hrecord : record' ∈ done.map Dispatch.record ++ remaining.toList) :
      next ≤ record'.scheduledAt :=
    le_of_mem_occurrences hadmitted.pos (h.aligned record' hrecord).2
  refine ⟨?_, ?_, ?_, ?_, ?_, h.accepts⟩
  · rw [count_dispatched_cons, if_pos hid, h.all, List.length_cons, Nat.add_comm]
  · intro d hd
    rcases List.mem_cons.mp hd with rfl | hd
    · exact ⟨hdue, henumerates⟩
    · exact h.decided d hd
  · intro record' hrecord
    rcases List.mem_cons.mp hrecord with rfl | hrecord
    · exact ⟨hadmitted, target_mem_occurrences⟩
    · obtain ⟨hadmitted', hmem⟩ := h.aligned record' hrecord
      exact ⟨hadmitted', mem_occurrences_trans hprogression hmem⟩
  · refine .cons (fun record' hrecord ↦ ?_) h.increasing
    have := hlater record' hrecord
    change record.scheduledAt < _
    omega
  · refine .cons (fun d hd ↦ ?_) h.once
    -- Later occurrences are not before later targets, and this one is not in the future.
    have htarget := hlater d.record (List.mem_append_left _ (List.mem_map_of_mem hd))
    have hnow : decision.occurrenceAt ≤ acceptedAt := henumerates.latest.1.2
    have hthen := le_of_mem_occurrences hadmitted.pos (h.decided d hd).2.latest.1.1
    change decision.occurrenceAt < _
    omega

end FixedRate

theorem fixedRate_of_active (hadmitted : Admitted record seconds)
    (hactive : folded.active.get? record.id = some record) (hseen : record.id ∈ folded.seenIds)
    (h : events.foldlM FoldedSchedules.foldEvent folded = .ok after) :
    FixedRate record seconds events (dispatches record.id folded events)
      (after.active.get? record.id) := by
  induction events generalizing folded record with
  | nil =>
    obtain rfl : folded = after := Except.ok.inj h
    rw [hactive]
    exact .start hadmitted
  | cons event events ih =>
    obtain ⟨next, hevent, hrest⟩ := foldlM_cons_eq_ok h
    have htransition := FoldedSchedules.transition_of_foldEvent hevent
    have hseen' := seenIds_of_transition htransition hseen
    rw [dispatches_cons hevent]
    cases meets_of_transition htransition hactive hseen hadmitted with
    | passed hactive' hnone hother =>
      rw [hnone]
      exact (ih hadmitted hactive' hseen' hrest).pass hother
    | deleted hgone hnone hother =>
      obtain ⟨hlist, hcount, hlast⟩ := dispatches_of_gone hgone hseen' hrest
      rw [hnone, hlist, hlast]
      exact (FixedRate.of_gone hcount).pass hother
    | dispatched acceptedAt decision hdue henumerates hsome hid hnext =>
      rw [hsome]
      cases htarget : decision.nextScheduledAt with
      | none =>
        rw [htarget] at hnext
        obtain ⟨hlist, hcount, hlast⟩ := dispatches_of_gone hnext hseen' hrest
        rw [hlist, hlast]
        exact .finish hadmitted hid hdue henumerates hcount
      | some target =>
        rw [htarget] at hnext
        obtain ⟨⟨⟨-, hfuture⟩, -⟩, hend⟩ := (henumerates.next target).mp htarget
        have hadmitted' : Admitted { record with scheduledAt := target } seconds :=
          ⟨hadmitted.kind, hadmitted.pos, hadmitted.safe,
            hadmitted.target.1.trans (hdue.trans (le_of_lt hfuture)), hend⟩
        exact .advance hadmitted hid hdue henumerates htarget
          (ih hadmitted' hnext hseen' hrest)

/-- **Fixed rates**: in every stream that is accepted after a fixed-rate record is created, its
decisions enumerate its occurrences, whatever happens to other records in between. -/
theorem fixedRate_run {created : FoldedSchedules} (hkind : record.kind = .every seconds)
    (hcreated : folded.foldEvent (.change (.create record)) = .ok created)
    (h : events.foldlM FoldedSchedules.foldEvent created = .ok after) :
    FixedRate record seconds events (dispatches record.id created events)
      (after.active.get? record.id) := by
  obtain ⟨change, hdecoded, -⟩ := bind_eq_ok hcreated
  obtain ⟨decoded, hdecoded, -⟩ := map_eq_ok hdecoded
  cases FoldedSchedules.transition_of_foldEvent hcreated with
  | create hfresh =>
    refine fixedRate_of_active (admitted_of_decode hkind hdecoded) ?_ (by simp) h
    rw [OrderedMap.get?_set, if_pos rfl]

/-- A reminder every five minutes, whose first two occurrences are missed. -/
def everyFiveMinutes (target : ℤ) : ScheduleRecord :=
  ⟨js "schedule-1", js "stretch", .every 300, target⟩

/-- The folded stream in which only that record is known. -/
def onlyFiveMinutes (target : ℤ) : FoldedSchedules :=
  ⟨OrderedMap.empty.set (js "schedule-1") (everyFiveMinutes target), [js "schedule-1"]⟩

theorem fixedRate_run_missed :
    FixedRate (everyFiveMinutes 0) 300
      [.change (.dispatch (js "schedule-1") (some 700000)), .other .unrelated,
        .change (.dispatch (js "schedule-1") (some 900000))]
      (dispatches (js "schedule-1") (onlyFiveMinutes 0)
        [.change (.dispatch (js "schedule-1") (some 700000)), .other .unrelated,
          .change (.dispatch (js "schedule-1") (some 900000))])
      (some (everyFiveMinutes 1200000)) :=
  @fixedRate_run (everyFiveMinutes 0) 300 .empty (onlyFiveMinutes 1200000) _ (onlyFiveMinutes 0) rfl
    rfl rfl

/-- An interval that the decoder admits can lead beyond the safe integers, and the record is done
then. -/
theorem exists_unsafe_next : ∃ record seconds decision,
    decodeScheduleRecord record = .ok record ∧ record.kind = .every seconds ∧
      resolveEveryOccurrence record.scheduledAt seconds record.scheduledAt = .ok decision ∧
      decision.nextScheduledAt = none ∧
      ¬ Number.IsSafe (Number.roundToDouble (decision.occurrenceAt + seconds * 1000)) :=
  ⟨⟨js "schedule-1", js "stretch", .every 9007199254740, 1000⟩, 9007199254740, ⟨1000, none⟩, rfl,
    rfl, rfl, rfl, by decide +kernel⟩

end XxAgent.Schedule
