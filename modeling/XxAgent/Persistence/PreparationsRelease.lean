import XxAgent.Persistence.PreparationsExclusive

/-!
# Who keeps a reservation and who is released

The first half follows the entry of an id through every operation: one that is being committed or is
reserved leaves the pool by an operation on it, never because another entry was touched. The second
half follows the calls that wait for it.
-/

namespace XxAgent

namespace SessionPreparations

variable {Id Source CommitState : Type*} [DecidableEq Id]

/-! ## What stays in the pool -/

theorem get?_remove {s : SessionPreparations Id Source CommitState} {e₀ e : ℕ} {id : Id}
    (h : s.entries.get? id = some e) (hne : e ≠ e₀) :
    (s.remove e₀).entries.get? id = some e := by
  rcases hcur : s.current e₀ with _ | _
  · rwa [remove_of_not_current hcur]
  rcases hentry : s.heap e₀ with _ | entry
  · simp [current, hentry] at hcur
  have hin := (current_iff hentry).mp hcur
  rw [remove_eq hentry hin]
  simp only [Ecma.OrderedMap.get?_delete]
  rw [if_neg, h]
  rintro rfl
  exact hne (Option.some.inj (h.symm.trans hin))

private theorem get?_evict {s : SessionPreparations Id Source CommitState} {e : ℕ} {id : Id}
    (h : s.entries.get? id = some e) :
    s.evict.entries.get? id = some e ∨ s.isReady e = true := by
  rw [evict]
  split_ifs
  · exact .inl h
  rcases hfind : s.entries.entries.find? fun p ↦ s.isReady p.2 with _ | ⟨id', victim⟩
  · simp only [hfind]
    exact .inl h
  simp only [hfind, Ecma.OrderedMap.get?_delete]
  split_ifs with hid
  · have hvictim := Ecma.OrderedMap.get?_eq_some_iff.mpr (List.mem_of_find?_eq_some hfind)
    rw [← hid, h] at hvictim
    rw [Option.some.inj hvictim]
    exact .inr (by simpa using List.find?_some hfind)
  · exact .inl h

theorem get?_touch {s : SessionPreparations Id Source CommitState} {e₀ e : ℕ} {id : Id}
    (h : s.entries.get? id = some e) (hcur : s.current e₀ = true) :
    (s.touch e₀).entries.get? id = some e ∨ s.isReady e = true := by
  rcases hentry : s.heap e₀ with _ | entry
  · simp [current, hentry] at hcur
  have hin := (current_iff hentry).mp hcur
  rw [touch, hentry]
  apply get?_evict (s := { s with entries := (s.entries.delete entry.id).set entry.id e₀ })
  simp only [Ecma.OrderedMap.get?_set, Ecma.OrderedMap.get?_delete]
  split_ifs with hid
  · rw [← hin, ← hid, h]
  · exact h

omit [DecidableEq Id] in
theorem entries_settle (s : SessionPreparations Id Source CommitState) (e : ℕ) :
    (s.settle e).entries = s.entries := by
  rw [settle]
  rcases (s.heap e).bind (·.reservationSettled) with _ | p
  · rfl
  · rfl

theorem isReady_settle (s : SessionPreparations Id Source CommitState) (e e' : ℕ) :
    (s.settle e).isReady e' = s.isReady e' := by
  rcases hentry : s.heap e with _ | entry
  · rw [settle, hentry]
    rfl
  rw [settle_eq hentry]
  by_cases he : e' = e
  · simp [isReady, he, hentry]
  · simp [isReady, Function.update_of_ne he]

theorem get?_makeReady {s : SessionPreparations Id Source CommitState} {e₀ e : ℕ} {id : Id}
    (h : s.entries.get? id = some e) (hne : e ≠ e₀) :
    (s.makeReady e₀).entries.get? id = some e ∨ s.isReady e = true := by
  rw [makeReady]
  split_ifs with hcur
  · have hready : ((s.modify e₀ ({ · with phase := .ready })).settle e₀).isReady e
        = s.isReady e := by rw [isReady_settle, isReady_modify_of_ne s hne]
    rw [← hready]
    apply get?_touch
    · rw [entries_settle]
      exact h
    · rcases hentry : s.heap e₀ with _ | entry
      · simp [current, hentry] at hcur
      have hentry' : (s.modify e₀ ({ · with phase := .ready })).heap e₀
          = some { entry with phase := .ready } := by simp [modify, hentry]
      rw [settle_eq hentry']
      simpa [current, modify, hentry] using hcur
  · exact .inl h

/-- The operations that end the hold on an entry that is committed or reserved. -/
def Ends (s : SessionPreparations Id Source CommitState) (e : ℕ) :
    PreparationAction Id Source CommitState → Prop
  | .attach r => s.held r = some e
  | .discard r => s.held r = some e
  | .release r _ => s.held r = some e
  | .invalidate id => s.entries.get? id = some e
  | .committed c outcome => ∃ call, s.calls c = some call ∧ call.stage = .committing ∧
      call.entry = e ∧ (outcome = none ∨ call.aborted = true)
  | .commitFailed c => ∃ call, s.calls c = some call ∧ call.stage = .committing ∧ call.entry = e
  | _ => False

theorem entries_proceed (s : SessionPreparations Id Source CommitState) (c e : ℕ) :
    (s.proceed c e).entries = s.entries := by
  rw [proceed]
  rcases s.heap e with _ | entry
  · rfl
  simp only
  split_ifs
  · rfl
  · rcases entry.reservationSettled with _ | p
    · rfl
    · rfl
  · rfl

section Step

variable [DecidableEq Source]

/-- **What is committed or reserved is not evicted.** -/
theorem get?_step {s : SessionPreparations Id Source CommitState} (h : s.Ok)
    (a : PreparationAction Id Source CommitState) {e : ℕ} {entry : PreparationEntry Id Source}
    (hentry : s.heap e = some entry) {id : Id} (hin : s.entries.get? id = some e)
    (hheld : entry.phase = .committing ∨ entry.phase = .reserved) (hends : ¬ s.Ends e a) :
    (s.step a).entries.get? id = some e := by
  have hnotReady : s.isReady e = false := by
    rw [Bool.eq_false_iff, Ne, isReady_iff hentry]
    rcases hheld with hphase | hphase
    · simp [hphase]
    · simp [hphase]
  have hkeep {P : Prop} (hor : P ∨ s.isReady e = true) : P := by
    rcases hor with hp | hready
    · exact hp
    · exact absurd (hnotReady.symm.trans hready) (by simp)
  have hcall (id' : Id) (reserves : Bool) :
      (s.call id' reserves).entries.get? id = some e := by
    change (s.entryFor id').1.entries.get? id = some e
    rw [entryFor]
    rcases hid' : s.entries.get? id' with _ | e'
    · simp only [Ecma.OrderedMap.get?_set]
      rw [if_neg, hin]
      rintro rfl
      exact absurd (hid'.symm.trans hin) (by simp)
    · exact hin
  have hload (e₀ : ℕ) (source : Option Source) :
      (s.loaded e₀ source).entries.get? id = some e := by
    unfold loaded
    rcases hentry₀ : s.heap e₀ with _ | entry₀
    · exact hin
    simp only
    by_cases hsettled : entry₀.result.isSome = true
    · rw [if_pos hsettled]
      exact hin
    rw [if_neg hsettled]
    have hloading := (h.entry e₀ entry₀ hentry₀).pending (by simpa using hsettled)
    have hne : e ≠ e₀ := by
      rintro rfl
      rw [← Option.some.inj (hentry.symm.trans hentry₀)] at hloading
      simp [hloading] at hheld
    rcases source with _ | source
    · exact get?_remove hin hne
    · simp only
      split_ifs
      · apply hkeep
        rw [← isReady_modify_of_ne s hne ({ · with source := some source })]
        exact get?_makeReady hin hne
      · exact hin
  have hcommit (c : ℕ) (outcome : Option (Option (Source × CommitState)))
      (hends : ∀ call, s.calls c = some call → call.stage = .committing → call.entry = e →
        outcome ≠ none ∧ outcome ≠ some none ∧ call.aborted = false) :
      (s.committed c outcome).entries.get? id = some e := by
    rw [committed]
    rcases hc : s.calls c with _ | call
    · exact hin
    simp only
    have hends := hends call hc
    rcases hstage : call.stage with _ | p | _ | _ | _ | _
    case committing =>
      have hends := hends hstage
      rcases outcome with _ | _ | ⟨source, state⟩
      · exact get?_remove hin fun he ↦ (hends he.symm).1 rfl
      · exact get?_remove hin fun he ↦ (hends he.symm).2.1 rfl
      · simp only [reserved]
        split_ifs with haborted
        · have hne : e ≠ call.entry := by
            intro he
            exact absurd ((hends he.symm).2.2.symm.trans haborted) (by simp)
          apply hkeep
          rw [← isReady_modify_of_ne s hne ({ · with source := some source })]
          exact get?_makeReady hin hne
        · exact hin
        · exact hin
    all_goals exact hin
  rcases a with id' | id' | ⟨e₀, source⟩ | e₀ | c | c | c | ⟨c, outcome⟩ | c | r | r |
    ⟨r, reusable⟩ | id' | ⟨id', expected⟩ | id'
  · exact hcall id' false
  · exact hcall id' true
  · exact hload e₀ (some source)
  · exact hload e₀ none
  · rw [step, resume]
    rcases hc : s.calls c with _ | call
    · exact hin
    simp only
    rcases hstage : call.stage with _ | p | _ | _ | _ | _
    all_goals simp only
    · rw [resumeLoaded]
      rcases s.heap call.entry with _ | entry'
      · exact hin
      simp only
      rcases entry'.result with _ | _ | source
      · exact hin
      · exact hin
      · simp only
        split_ifs with hreserves hready
        · rwa [entries_proceed]
        · rw [Bool.and_eq_true] at hready
          exact hkeep (get?_touch hin hready.1)
        · exact hin
    · split_ifs
      · rwa [entries_proceed]
      · exact hin
    all_goals exact hin
  · exact hin
  · rw [step, cancelled]
    rcases s.calls c with _ | call
    · exact hin
    simp only
    split
    · exact hin
    · exact hin
    · exact hin
  · apply hcommit
    intro call hc hstage he
    refine ⟨by simp, fun hnone ↦ hends ⟨call, hc, hstage, he, .inl (Option.some.inj hnone)⟩, ?_⟩
    by_contra haborted
    exact hends ⟨call, hc, hstage, he, .inr (by simpa using haborted)⟩
  · apply hcommit
    exact fun call hc hstage he ↦ absurd ⟨call, hc, hstage, he⟩ hends
  · rw [step, consume]
    rcases hr : s.held r with _ | e₀
    · exact hin
    · exact get?_remove hin fun he ↦ hends (he ▸ hr)
  · rw [step, consume]
    rcases hr : s.held r with _ | e₀
    · exact hin
    · exact get?_remove hin fun he ↦ hends (he ▸ hr)
  · rw [step, release]
    rcases hr : s.held r with _ | e₀
    · exact hin
    have hne : e ≠ e₀ := fun he ↦ hends (he ▸ hr)
    simp only
    split_ifs
    · exact hin
    · exact get?_remove hin hne
    · apply hkeep
      rw [← isReady_modify_of_ne s hne ({ · with reservation := none })]
      exact get?_makeReady hin hne
  · rw [step, invalidate]
    rcases hid : s.entries.get? id' with _ | e₀
    · exact hin
    · exact get?_remove hin fun he ↦ hends (he ▸ hid)
  -- What is discarded or taken otherwise is ready.
  all_goals
    have hready (e₀ : ℕ) (hr : s.isReady e₀ = true) : (s.remove e₀).entries.get? id = some e :=
      get?_remove hin fun he ↦ absurd ((he ▸ hnotReady : s.isReady e₀ = false).symm.trans hr) (by simp)
  · rw [step, discardReady]
    rcases s.entries.get? id' with _ | e₀
    · exact hin
    simp only
    split_ifs with hsource hr
    · exact hin
    · exact hin
    · exact hready e₀ (by simpa using hr)
  · rw [step, takeReady]
    rcases s.entries.get? id' with _ | e₀
    · exact hin
    simp only
    split_ifs with hr
    · exact hin
    · rw [Bool.or_eq_true, not_or] at hr
      exact hready e₀ (by simpa using hr.1)

/-! ## Who waits -/

omit [DecidableEq Source] in
theorem calls_remove (s : SessionPreparations Id Source CommitState) (e : ℕ) :
    (s.remove e).calls = s.calls := by
  rcases hcur : s.current e with _ | _
  · rw [remove_of_not_current hcur]
  rcases hentry : s.heap e with _ | entry
  · simp [current, hentry] at hcur
  · rw [remove_eq hentry ((current_iff hentry).mp hcur)]

omit [DecidableEq Source] in
private theorem touch_frame (s : SessionPreparations Id Source CommitState) (e : ℕ) :
    ∃ entries', s.touch e = { s with entries := entries' } := by
  rw [touch]
  rcases s.heap e with _ | entry
  · exact ⟨s.entries, rfl⟩
  simp only
  rw [evict]
  split_ifs
  · exact ⟨_, rfl⟩
  · generalize List.find? _ _ = found
    rcases found with _ | p
    · exact ⟨_, rfl⟩
    · exact ⟨_, rfl⟩

omit [DecidableEq Id] [DecidableEq Source] in
private theorem settle_frame (s : SessionPreparations Id Source CommitState) (e : ℕ) :
    (s.settle e).calls = s.calls ∧ (s.settle e).capacity = s.capacity := by
  rw [settle]
  rcases (s.heap e).bind (·.reservationSettled) with _ | p
  · exact ⟨rfl, rfl⟩
  · exact ⟨rfl, rfl⟩

omit [DecidableEq Source] in
/-- What making an entry ready comes to, but for the pool. -/
theorem makeReady_frame (s : SessionPreparations Id Source CommitState) (e : ℕ) :
    (s.makeReady e).calls = s.calls ∧ (s.makeReady e).capacity = s.capacity ∧
      (s.current e = true → (s.makeReady e).isReady e = true) := by
  rw [makeReady]
  split_ifs with hcur
  · obtain ⟨entries', heq⟩ := touch_frame ((s.modify e ({ · with phase := .ready })).settle e) e
    obtain ⟨hcalls, hcapacity⟩ := settle_frame (s.modify e ({ · with phase := .ready })) e
    have hready : ((s.modify e ({ · with phase := .ready })).settle e).isReady e = true := by
      rw [isReady_settle]
      rcases hentry : s.heap e with _ | entry
      · simp [current, hentry] at hcur
      · simp [isReady, modify, hentry]
    rw [heq]
    exact ⟨hcalls, hcapacity, fun _ ↦ hready⟩
  · exact ⟨rfl, rfl, fun hnow ↦ absurd hnow hcur⟩

omit [DecidableEq Source] in
/-- An entry that left the pool, or is ready, has no promise to wait for. -/
theorem Ok.waiter_eq_none {s : SessionPreparations Id Source CommitState} (h : s.Ok) {e : ℕ}
    (hfree : s.current e = false ∨ s.isReady e = true) : s.waiter e = none := by
  rcases hentry : s.heap e with _ | entry
  · rw [waiter, hentry]
    rfl
  rw [waiter, hentry, Option.bind_some, ← Option.not_isSome_iff_eq_none,
    (h.entry e entry hentry).waits]
  rintro ⟨hcur, hphase⟩
  rcases hfree with hgone | hready
  · exact absurd (hgone.symm.trans hcur) (by simp)
  · simp [(isReady_iff hentry).mp hready] at hphase

/-- An operation that ends the hold on an entry wakes all who wait for it, and none of them has
moved meanwhile. -/
theorem Ends.released {s : SessionPreparations Id Source CommitState} (h : s.Ok)
    {a : PreparationAction Id Source CommitState} {e : ℕ} (hends : s.Ends e a) {c : ℕ}
    {call : PreparationCall Source} {p : ℕ} (hcall : s.calls c = some call)
    (he : call.entry = e) (hstage : call.stage = .awaitingReservation p) :
    (s.step a).calls c = some call ∧ (s.step a).settled p = true := by
  have hafter := h.step a
  -- It is enough that the call has not moved and that the entry is no longer held.
  suffices hmoved : (s.step a).calls c = some call ∧
      ((s.step a).current e = false ∨ (s.step a).isReady e = true) by
    refine ⟨hmoved.1, ?_⟩
    obtain ⟨entry, hentry, hok⟩ := hafter.calls c call hmoved.1
    have hnone := hafter.waiter_eq_none hmoved.2
    rw [waiter, ← he, hentry, Option.bind_some] at hnone
    rcases hok.waiting p hstage with hsettled | howned
    · exact hsettled
    · exact absurd (hnone.symm.trans howned) (by simp)
  have hremove : (s.remove e).calls c = some call ∧
      ((s.remove e).current e = false ∨ (s.remove e).isReady e = true) :=
    ⟨by rw [calls_remove, hcall], .inl (current_remove s e)⟩
  have hmade (f : PreparationEntry Id Source → PreparationEntry Id Source) :
      ((s.modify e f).makeReady e).calls c = some call ∧
        (((s.modify e f).makeReady e).current e = false ∨
          ((s.modify e f).makeReady e).isReady e = true) := by
    obtain ⟨hcalls, -, hready⟩ := makeReady_frame (s.modify e f) e
    refine ⟨hcalls ▸ hcall, ?_⟩
    rcases hcur : (s.modify e f).current e with _ | _
    · rw [makeReady, if_neg (by simp [hcur])]
      exact .inl hcur
    · exact .inr (hready hcur)
  have hcommit (c' : ℕ) (call' : PreparationCall Source) (hcall' : s.calls c' = some call')
      (hstage' : call'.stage = .committing) : c ≠ c' := by
    rintro rfl
    rw [← Option.some.inj (hcall.symm.trans hcall'), hstage] at hstage'
    exact absurd hstage' (by simp)
  rcases a with id' | id' | ⟨e₀, source⟩ | e₀ | c' | c' | c' | ⟨c', outcome⟩ | c' | r | r |
    ⟨r, reusable⟩ | id' | ⟨id', expected⟩ | id'
  case committed =>
    obtain ⟨call', hcall', hstage', rfl, hover⟩ := hends
    have hne := hcommit c' call' hcall' hstage'
    rw [step, committed]
    simp only [hcall', hstage']
    rcases outcome with _ | ⟨source, state⟩
    · refine ⟨?_, hremove.2⟩
      simpa [setStage, Function.update_of_ne hne] using hremove.1
    · have haborted : call'.aborted = true := hover.resolve_left (by simp)
      simp only [reserved, haborted, if_true]
      obtain ⟨hcalls, hready⟩ := hmade ({ · with source := some source })
      refine ⟨?_, hready⟩
      simpa [setStage, Function.update_of_ne hne] using hcalls
  case commitFailed =>
    obtain ⟨call', hcall', hstage', rfl⟩ := hends
    have hne := hcommit c' call' hcall' hstage'
    rw [step, committed]
    simp only [hcall', hstage']
    refine ⟨?_, hremove.2⟩
    simpa [setStage, Function.update_of_ne hne] using hremove.1
  case attach =>
    rw [step, consume, (hends : s.held r = some e)]
    exact hremove
  case discard =>
    rw [step, consume, (hends : s.held r = some e)]
    exact hremove
  case release =>
    rw [step, release, (hends : s.held r = some e)]
    obtain ⟨entry, hentry, hin, hr⟩ := held_eq_some (hends : s.held r = some e)
    have hphase : entry.phase = .reserved := by
      rw [← (h.entry e entry hentry).reserved ((current_iff hentry).mpr hin), hr]
      rfl
    simp only [hentry, Option.any_some, hphase, decide_true]
    rcases reusable with _ | _
    · exact hremove
    · exact hmade ({ · with reservation := none })
  case invalidate =>
    rw [step, invalidate, (hends : s.entries.get? id' = some e)]
    exact hremove
  all_goals exact hends.elim

theorem capacity_step (s : SessionPreparations Id Source CommitState)
    (a : PreparationAction Id Source CommitState) : (s.step a).capacity = s.capacity := by
  have hremove (e : ℕ) : (s.remove e).capacity = s.capacity := by
    rw [remove]
    rcases s.heap e with _ | entry
    · rfl
    simp only
    split_ifs
    · exact (settle_frame _ e).2
    · rfl
  have hmade (f : PreparationEntry Id Source → PreparationEntry Id Source) (e : ℕ) :
      ((s.modify e f).makeReady e).capacity = s.capacity := (makeReady_frame _ e).2.1
  have hload (e : ℕ) (source : Option Source) : (s.loaded e source).capacity = s.capacity := by
    unfold loaded
    rcases s.heap e with _ | entry
    · rfl
    simp only
    rcases source with _ | source
    · split_ifs
      · rfl
      · exact hremove e
      · exact hremove e
    · simp only
      split_ifs
      · rfl
      · exact hmade _ e
      · rfl
  have hproceed (c e : ℕ) : (s.proceed c e).capacity = s.capacity := by
    rw [proceed]
    rcases s.heap e with _ | entry
    · rfl
    simp only
    split_ifs
    · rfl
    · rcases entry.reservationSettled with _ | p
      · rfl
      · rfl
    · rfl
  have hcommit (c : ℕ) (outcome : Option (Option (Source × CommitState))) :
      (s.committed c outcome).capacity = s.capacity := by
    rw [committed]
    rcases s.calls c with _ | call
    · rfl
    simp only
    rcases call.stage with _ | p | _ | _ | _ | _
    case committing =>
      rcases outcome with _ | _ | ⟨source, state⟩
      · exact hremove _
      · exact hremove _
      · simp only [reserved]
        split_ifs
        · exact hmade _ _
        · rfl
        · rfl
    all_goals rfl
  have hcall (id : Id) (reserves : Bool) : (s.call id reserves).capacity = s.capacity := by
    change (s.entryFor id).1.capacity = s.capacity
    rw [entryFor]
    rcases s.entries.get? id with _ | e
    · rfl
    · rfl
  rcases a with id | id | ⟨e, source⟩ | e | c | c | c | ⟨c, outcome⟩ | c | r | r | ⟨r, reusable⟩ |
    id | ⟨id, expected⟩ | id
  · exact hcall id false
  · exact hcall id true
  · exact hload e (some source)
  · exact hload e none
  · rw [step, resume]
    rcases s.calls c with _ | call
    · rfl
    simp only
    rcases call.stage with _ | p | _ | _ | _ | _
    all_goals simp only
    · rw [resumeLoaded]
      rcases s.heap call.entry with _ | entry
      · rfl
      simp only
      rcases entry.result with _ | _ | source
      · rfl
      · rfl
      · simp only
        split_ifs
        · exact hproceed c _
        · obtain ⟨entries', heq⟩ := touch_frame s call.entry
          rw [heq]
          rfl
        · rfl
    · split_ifs
      · exact hproceed c _
      · rfl
  · rfl
  · rw [step, cancelled]
    rcases s.calls c with _ | call
    · rfl
    simp only
    split
    · rfl
    · rfl
    · rfl
  · exact hcommit c (some outcome)
  · exact hcommit c none
  · rw [step, consume]
    rcases s.held r with _ | e
    · rfl
    · exact hremove e
  · rw [step, consume]
    rcases s.held r with _ | e
    · rfl
    · exact hremove e
  · rw [step, release]
    rcases s.held r with _ | e
    · rfl
    simp only
    split_ifs
    · rfl
    · exact hremove e
    · exact hmade _ e
  all_goals
    first
    | rw [step, invalidate]
    | rw [step, discardReady]
    | rw [step, takeReady]
    rcases s.entries.get? id with _ | e
    · rfl
    simp only
  · exact hremove e
  · split_ifs
    · rfl
    · rfl
    · exact hremove e
  · split_ifs
    · rfl
    · exact hremove e

theorem capacity_run (capacity : ℕ) (actions : List (PreparationAction Id Source CommitState)) :
    (run capacity actions).capacity = capacity :=
  List.foldlRecOn
    (motive := fun s : SessionPreparations Id Source CommitState ↦ s.capacity = capacity)
    actions _ rfl fun _ h a _ ↦ (capacity_step _ a).trans h

/-! ## Exclusive reservation -/

/-- What a pool guarantees in a state, and in its next step. -/
structure Exclusive (capacity : ℕ) (s : SessionPreparations Id Source CommitState) : Prop where
  /-- One reservation of an id can be attached at a time. -/
  attachable : ∀ r₁ r₂ e₁ e₂ entry₁ entry₂, s.held r₁ = some e₁ → s.held r₂ = some e₂ →
    s.heap e₁ = some entry₁ → s.heap e₂ = some entry₂ → entry₁.id = entry₂.id → r₁ = r₂
  /-- A commit callback runs while its entry is committing. -/
  committing : ∀ c call, s.calls c = some call → call.stage = .committing →
    ∃ entry, s.heap call.entry = some entry ∧ entry.phase = .committing
  /-- A committing or reserved entry leaves the pool by an operation that ends the hold on it. -/
  kept : ∀ a e entry, s.heap e = some entry → s.current e = true →
    entry.phase = .committing ∨ entry.phase = .reserved → ¬ s.Ends e a →
      (s.step a).entries.get? entry.id = some e
  ready : s.readyCount ≤ capacity
  /-- Such an operation wakes all who wait for the entry. -/
  released : ∀ a e, s.Ends e a → ∀ c call p, s.calls c = some call → call.entry = e →
    call.stage = .awaitingReservation p →
      (s.step a).calls c = some call ∧ (s.step a).settled p = true
  /-- Who still waits waits for an entry of the pool that is committed or reserved. -/
  blocked : ∀ c call p, s.calls c = some call → call.stage = .awaitingReservation p →
    s.settled p = true ∨ ∃ entry, s.heap call.entry = some entry ∧
      s.current call.entry = true ∧ (entry.phase = .committing ∨ entry.phase = .reserved) ∧
        entry.reservationSettled = some p

/-- **A prepared session is reserved exclusively, and who waits for it is released**, in every order
in which loads, commits and calls settle. -/
theorem sessionPreparations_exclusive (capacity : ℕ)
    (actions : List (PreparationAction Id Source CommitState)) :
    Exclusive capacity (run capacity actions) := by
  have h := ok_run capacity actions
  constructor
  case attachable =>
    intro r₁ r₂ e₁ e₂ entry₁ entry₂ h₁ h₂ hentry₁ hentry₂ hid
    obtain ⟨x₁, hx₁, hin₁, hr₁⟩ := held_eq_some h₁
    obtain ⟨x₂, hx₂, hin₂, hr₂⟩ := held_eq_some h₂
    obtain rfl := Option.some.inj (hentry₁.symm.trans hx₁)
    obtain rfl := Option.some.inj (hentry₂.symm.trans hx₂)
    rw [hid, hin₂] at hin₁
    rw [Option.some.inj hin₁, hentry₁] at hentry₂
    rw [← Option.some.inj hentry₂, hr₁] at hr₂
    exact Option.some.inj hr₂
  case committing =>
    intro c call hcall hstage
    obtain ⟨entry, hentry, hok⟩ := h.calls c call hcall
    exact ⟨entry, hentry, hok.committing hstage⟩
  case kept =>
    exact fun a e entry hentry hcur hheld ↦
      get?_step h a hentry ((current_iff hentry).mp hcur) hheld
  case ready => exact Nat.le_trans h.capacity (Nat.le_of_eq (capacity_run capacity actions))
  case released => exact fun a e hends c call p ↦ hends.released h
  case blocked =>
    intro c call p hcall hstage
    obtain ⟨entry, hentry, hok⟩ := h.calls c call hcall
    refine (hok.waiting p hstage).imp_right fun howned ↦ ⟨entry, hentry, ?_⟩
    have hwaits := (h.entry call.entry entry hentry).waits.mp (by rw [howned]; rfl)
    exact ⟨hwaits.1, hwaits.2, howned⟩

end Step

end SessionPreparations

end XxAgent
