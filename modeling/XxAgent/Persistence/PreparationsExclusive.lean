import XxAgent.Persistence.Preparations

/-!
# Exclusive reservation

An entry that is committed or reserved is the entry of its id and has a promise of its own, which
nothing has settled; an entry in another phase has none. `EntryOk` says so of one entry, and every
operation is a change of one entry that may drop ready ones. `Ok.change` is the frame rule for all
of them: what has to be shown of an operation is that the entry it changes is left in order.
-/

namespace XxAgent

namespace SessionPreparations

variable {Id Source CommitState : Type*} [DecidableEq Id]

/-- The promise that the waiters of an entry block on. -/
def waiter (s : SessionPreparations Id Source CommitState) (e : ℕ) : Option ℕ :=
  (s.heap e).bind (·.reservationSettled)

/-- What holds of an entry, the entry of its id or not. -/
structure EntryOk (current : Bool) (settled : ℕ → Bool) (entry : PreparationEntry Id Source) :
    Prop where
  pending : entry.result = none → entry.phase = .loading
  loading : current = true → entry.phase = .loading → entry.result = none
  source : entry.phase ≠ .loading → entry.source.isSome
  unsettled : ∀ p, entry.reservationSettled = some p → settled p = false
  waits : entry.reservationSettled.isSome = true ↔
    current = true ∧ (entry.phase = .committing ∨ entry.phase = .reserved)
  reserved : current = true → (entry.reservation.isSome = true ↔ entry.phase = .reserved)

/-- What holds of a call and the entry it holds. -/
structure CallOk (settled : ℕ → Bool) (entry : PreparationEntry Id Source)
    (stage : PreparationStage Source) : Prop where
  loaded : ∀ p, stage = .awaitingReservation p → entry.result.isSome = true
  waiting : ∀ p, stage = .awaitingReservation p →
    settled p = true ∨ entry.reservationSettled = some p
  committing : stage = .committing → entry.phase = .committing
  waiterKept : stage ≠ .threw .lostWaiter

structure Ok (s : SessionPreparations Id Source CommitState) : Prop where
  keyed : ∀ id e, s.entries.get? id = some e → ∃ entry, s.heap e = some entry ∧ entry.id = id
  fresh : ∀ e, s.nextEntry ≤ e → s.heap e = none
  entry : ∀ e entry, s.heap e = some entry → EntryOk (s.current e) s.settled entry
  distinct : ∀ e e' p, s.waiter e = some p → s.waiter e' = some p → e = e'
  unissued : ∀ p, s.nextPromise ≤ p → s.settled p = false
  issued : ∀ e p, s.waiter e = some p → p < s.nextPromise
  calls : ∀ c call, s.calls c = some call →
    ∃ entry, s.heap call.entry = some entry ∧ CallOk s.settled entry call.stage
  oneCommit : ∀ c c' call call', s.calls c = some call → s.calls c' = some call' →
    call.entry = call'.entry → call.stage = .committing → call'.stage = .committing → c = c'
  capacity : s.readyCount ≤ s.capacity

theorem current_iff {s : SessionPreparations Id Source CommitState} {e : ℕ}
    {entry : PreparationEntry Id Source} (h : s.heap e = some entry) :
    s.current e = true ↔ s.entries.get? entry.id = some e := by
  simp [current, h]

theorem isReady_iff {s : SessionPreparations Id Source CommitState} {e : ℕ}
    {entry : PreparationEntry Id Source} (h : s.heap e = some entry) :
    s.isReady e = true ↔ entry.phase = .ready := by
  simp [isReady, h]

theorem ok_new (capacity : ℕ) :
    ({ capacity := capacity } : SessionPreparations Id Source CommitState).Ok where
  keyed _ _ hget := by cases hget
  fresh _ _ := rfl
  entry _ _ hentry := by cases hentry
  distinct _ _ _ hwaiter := by cases hwaiter
  unissued _ _ := rfl
  issued _ _ hwaiter := by cases hwaiter
  calls _ _ hcall := by cases hcall
  oneCommit _ _ _ _ hcall := by cases hcall
  capacity := Nat.zero_le _

/-! ## Changing one entry -/

/-- The change of one entry, which may drop other entries that are ready. -/
structure Change (s s' : SessionPreparations Id Source CommitState) (e : ℕ)
    (entry entry' : PreparationEntry Id Source) : Prop where
  before : s.heap e = some entry
  heap : s'.heap = Function.update s.heap e (some entry')
  id : entry'.id = entry.id
  kept : ∀ id e', s'.entries.get? id = some e' → s.entries.get? id = some e'
  evicted : ∀ id e', e' ≠ e → s.entries.get? id = some e' →
    s'.entries.get? id = some e' ∨ s.isReady e' = true
  settled : ∀ p, s'.settled p = true ↔ s.settled p = true ∨
    entry.reservationSettled = some p ∧ entry'.reservationSettled ≠ some p
  waiter : ∀ p, entry'.reservationSettled = some p →
    entry.reservationSettled = some p ∨ s.nextPromise ≤ p ∧ p < s'.nextPromise
  promises : s.nextPromise ≤ s'.nextPromise
  calls : s'.calls = s.calls
  nextEntry : s'.nextEntry = s.nextEntry
  count : s'.readyCount ≤ s'.capacity

/-- An entry other than the one that is changed stays, or it was ready. -/
theorem Change.current {s s' : SessionPreparations Id Source CommitState} {e : ℕ}
    {entry entry' : PreparationEntry Id Source} (h : Change s s' e entry entry') {e' : ℕ}
    (he : e' ≠ e) {other : PreparationEntry Id Source} (hother : s.heap e' = some other) :
    (s'.current e' = true → s.current e' = true) ∧
      (s.current e' = true → s'.current e' = true ∨ other.phase = .ready) := by
  have hother' : s'.heap e' = some other := by rw [h.heap, Function.update_of_ne he, hother]
  rw [current_iff hother, current_iff hother', ← isReady_iff hother]
  exact ⟨h.kept _ _, h.evicted _ _ he⟩

/-- **The frame rule.** An operation that leaves the entry it changes in order leaves the pool in
order. -/
theorem Ok.change {s s' : SessionPreparations Id Source CommitState} (h : s.Ok) {e : ℕ}
    {entry entry' : PreparationEntry Id Source} (hc : Change s s' e entry entry')
    (hok : EntryOk (s'.current e) s'.settled entry')
    (hphase : entry.phase = .committing → entry'.phase ≠ .committing →
      ∀ c call, s.calls c = some call → call.entry = e → call.stage ≠ .committing)
    (hresult : entry.result.isSome = true → entry'.result.isSome = true) : s'.Ok := by
  have hheap (e' : ℕ) : s'.heap e' = if e' = e then some entry' else s.heap e' := by
    rw [hc.heap, Function.update_apply]
  have hwaiter (e' : ℕ) : s'.waiter e'
      = if e' = e then entry'.reservationSettled else s.waiter e' := by
    rw [waiter, hheap]
    split_ifs <;> rfl
  have hself : s.waiter e = entry.reservationSettled := by rw [waiter, hc.before]; rfl
  -- A promise that this operation settles is the promise of the entry it changes.
  have hstill {e' : ℕ} (he : e' ≠ e) {p : ℕ} (hp : s.waiter e' = some p)
      (hunsettled : s.settled p = false) : s'.settled p = false := by
    rw [Bool.eq_false_iff, Ne, hc.settled, not_or]
    refine ⟨by simp [hunsettled], fun hsettled ↦ he ?_⟩
    exact h.distinct e' e p hp (hself.trans hsettled.1)
  constructor
  · intro id e' hid
    obtain ⟨x, hx, rfl⟩ := h.keyed id e' (hc.kept id e' hid)
    rw [hheap]
    split_ifs with he
    · subst he
      rw [hc.before] at hx
      exact ⟨entry', rfl, hc.id.trans (congrArg _ (Option.some.inj hx))⟩
    · exact ⟨x, hx, rfl⟩
  · intro e' he'
    rw [hc.nextEntry] at he'
    rw [hheap]
    split_ifs with he
    · subst he
      exact absurd ((h.fresh _ he').symm.trans hc.before) (by simp)
    · exact h.fresh e' he'
  · intro e' x hx
    by_cases he : e' = e
    · subst he
      rw [hheap, if_pos rfl] at hx
      exact Option.some.inj hx ▸ hok
    · rw [hheap, if_neg he] at hx
      obtain ⟨hcur, hcur'⟩ := hc.current he hx
      have hold := h.entry e' x hx
      refine ⟨hold.pending, fun hnow ↦ hold.loading (hcur hnow), hold.source, fun p hp ↦ ?_, ?_,
        fun hnow ↦ hold.reserved (hcur hnow)⟩
      · exact hstill he (by rw [waiter, hx]; exact hp) (hold.unsettled p hp)
      · rw [hold.waits]
        constructor
        · rintro ⟨hnow, hphase'⟩
          rcases hcur' hnow with hkept | hready
          · exact ⟨hkept, hphase'⟩
          · simp [hready] at hphase'
        · exact fun hnow ↦ ⟨hcur hnow.1, hnow.2⟩
  · intro e₁ e₂ p
    rw [hwaiter, hwaiter]
    have hbelow (e' : ℕ) (hp : s.waiter e' = some p)
        (hnew : s.nextPromise ≤ p ∧ p < s'.nextPromise) : False :=
      absurd (h.issued e' p hp) (Nat.not_lt.mpr hnew.1)
    split_ifs with h₁ h₂ h₂
    · exact fun _ _ ↦ h₁.trans h₂.symm
    · intro hp hp'
      rcases hc.waiter p hp with hold | hnew
      · exact h₁.trans (h.distinct e e₂ p (hself.trans hold) hp')
      · exact (hbelow e₂ hp' hnew).elim
    · intro hp hp'
      rcases hc.waiter p hp' with hold | hnew
      · exact (h.distinct e₁ e p hp (hself.trans hold)).trans h₂.symm
      · exact (hbelow e₁ hp hnew).elim
    · exact h.distinct e₁ e₂ p
  · intro p hp
    have hp' := Nat.le_trans hc.promises hp
    rw [Bool.eq_false_iff, Ne, hc.settled, not_or]
    refine ⟨by simp [h.unissued p hp'], fun hsettled ↦ ?_⟩
    exact absurd (h.issued e p (hself.trans hsettled.1)) (Nat.not_lt.mpr hp')
  · intro e' p
    rw [hwaiter]
    split_ifs
    · intro hp
      rcases hc.waiter p hp with hold | hnew
      · exact Nat.lt_of_lt_of_le (h.issued e p (hself.trans hold)) hc.promises
      · exact hnew.2
    · exact fun hp ↦ Nat.lt_of_lt_of_le (h.issued e' p hp) hc.promises
  · intro c call hcall
    rw [hc.calls] at hcall
    obtain ⟨x, hx, hloaded, hwaiting, hcommitting, hlost⟩ := h.calls c call hcall
    rw [hheap]
    split_ifs with he
    · rw [he, hc.before] at hx
      obtain rfl := Option.some.inj hx
      refine ⟨entry', rfl, fun p hp ↦ hresult (hloaded p hp), fun p hp ↦ ?_, fun hp ↦ ?_, hlost⟩
      · rcases hwaiting p hp with hdone | howned
        · exact .inl ((hc.settled p).mpr (.inl hdone))
        · by_cases hsame : entry'.reservationSettled = some p
          · exact .inr hsame
          · exact .inl ((hc.settled p).mpr (.inr ⟨howned, hsame⟩))
      · by_contra hne
        exact hphase (hcommitting hp) hne c call hcall he hp
    · refine ⟨x, hx, hloaded, fun p hp ↦ ?_, hcommitting, hlost⟩
      exact (hwaiting p hp).imp (fun hdone ↦ (hc.settled p).mpr (.inl hdone)) (fun h ↦ h)
  · rw [hc.calls]
    exact h.oneCommit
  · exact hc.count

/-! ## The ready ones -/

/-- Fewer entries, of which no more are ready. -/
private theorem readyCount_mono {s s' : SessionPreparations Id Source CommitState}
    (hentries : s'.entries.entries.Sublist s.entries.entries)
    (hready : ∀ p ∈ s'.entries.entries, s'.isReady p.2 = true → s.isReady p.2 = true) :
    s'.readyCount ≤ s.readyCount := by
  refine Nat.le_trans (List.countP_mono_left ?_) hentries.countP_le
  exact fun p hp ↦ hready p hp

theorem isReady_modify_of_ne (s : SessionPreparations Id Source CommitState) {e e' : ℕ}
    (h : e' ≠ e) (f : PreparationEntry Id Source → PreparationEntry Id Source) :
    (s.modify e f).isReady e' = s.isReady e' := by
  simp [isReady, modify, Function.update_of_ne h]

/-- Changing an entry that does not become ready. -/
private theorem readyCount_modify_le {s : SessionPreparations Id Source CommitState} {e : ℕ}
    {entry : PreparationEntry Id Source} (hentry : s.heap e = some entry)
    {f : PreparationEntry Id Source → PreparationEntry Id Source}
    (hphase : (f entry).phase = .ready → entry.phase = .ready) :
    (s.modify e f).readyCount ≤ s.readyCount := by
  have hentries : (s.modify e f).entries.entries.Sublist s.entries.entries := List.Sublist.refl _
  apply readyCount_mono hentries
  intro p _ hready
  by_cases hp : p.2 = e
  · rw [hp] at hready ⊢
    have hentry' : (s.modify e f).heap e = some (f entry) := by simp [modify, hentry]
    exact (isReady_iff hentry).mpr (hphase ((isReady_iff hentry').mp hready))
  · rwa [isReady_modify_of_ne s hp] at hready

/-- The number of ready entries, one of them set apart. -/
private theorem readyCount_eq {s : SessionPreparations Id Source CommitState} {id : Id} {e : ℕ}
    (h : s.entries.get? id = some e) : s.readyCount
      = (s.entries.delete id).entries.countP (fun p ↦ s.isReady p.2)
        + if s.isReady e = true then 1 else 0 := by
  have hperm := Ecma.OrderedMap.perm_cons_delete (Ecma.OrderedMap.get?_eq_some_iff.mp h)
  rw [readyCount, hperm.countP_eq, List.countP_cons]

/-- Eviction drops a ready entry at most, and leaves no more than fit. -/
theorem evict_spec {s : SessionPreparations Id Source CommitState}
    (hcount : s.readyCount ≤ s.capacity + 1) :
    ∃ entries', s.evict = { s with entries := entries' } ∧
      (∀ id e', entries'.get? id = some e' → s.entries.get? id = some e') ∧
      (∀ id e', s.entries.get? id = some e' →
        entries'.get? id = some e' ∨ s.isReady e' = true) ∧
      s.evict.readyCount ≤ s.capacity := by
  rw [evict]
  split_ifs with hfits
  · exact ⟨s.entries, rfl, fun _ _ h ↦ h, fun _ _ h ↦ .inl h, hfits⟩
  -- There is a ready entry, since there are more of them than fit.
  obtain ⟨p, hp, hpready⟩ : ∃ p ∈ s.entries.entries, s.isReady p.2 = true := by
    apply List.countP_pos_iff.mp
    exact Nat.lt_of_le_of_lt (Nat.zero_le _) (Nat.lt_of_not_le hfits)
  rcases hfind : s.entries.entries.find? fun p ↦ s.isReady p.2 with _ | ⟨id, victim⟩
  · exact absurd hpready (List.find?_eq_none.mp hfind p hp)
  have hvictim : s.entries.get? id = some victim :=
    Ecma.OrderedMap.get?_eq_some_iff.mpr (List.mem_of_find?_eq_some hfind)
  have hvready : s.isReady victim = true := by
    simpa using List.find?_some hfind
  simp only [hfind]
  refine ⟨s.entries.delete id, rfl, fun id' e' h ↦ ?_, fun id' e' h ↦ ?_, ?_⟩
  · rw [Ecma.OrderedMap.get?_delete] at h
    split_ifs at h
    exact h
  · rw [Ecma.OrderedMap.get?_delete]
    split_ifs with hid
    · rw [hid, hvictim] at h
      exact .inr (Option.some.inj h ▸ hvready)
    · exact .inl h
  · have hsplit := readyCount_eq hvictim
    rw [hvready, if_pos rfl] at hsplit
    change (s.entries.delete id).entries.countP (fun p ↦ s.isReady p.2) ≤ s.capacity
    omega

/-- Moving an entry behind the others makes no other difference than evicting does. -/
theorem touch_spec {s : SessionPreparations Id Source CommitState} {e : ℕ}
    {entry : PreparationEntry Id Source} (hentry : s.heap e = some entry)
    (hin : s.entries.get? entry.id = some e) (hcount : s.readyCount ≤ s.capacity + 1) :
    ∃ entries', s.touch e = { s with entries := entries' } ∧
      (∀ id e', entries'.get? id = some e' → s.entries.get? id = some e') ∧
      (∀ id e', s.entries.get? id = some e' →
        entries'.get? id = some e' ∨ s.isReady e' = true) ∧
      (s.touch e).readyCount ≤ s.capacity := by
  have hget (id : Id) :
      ((s.entries.delete entry.id).set entry.id e).get? id = s.entries.get? id := by
    rw [Ecma.OrderedMap.get?_set, Ecma.OrderedMap.get?_delete]
    split_ifs with hid
    · rw [hid, hin]
    · rfl
  have hlast : ((s.entries.delete entry.id).set entry.id e).entries
      = (s.entries.delete entry.id).entries ++ [(entry.id, e)] := by
    apply Ecma.OrderedMap.entries_set_of_get?_eq_none
    rw [Ecma.OrderedMap.get?_delete, if_pos rfl]
  have hmoved : ({ s with entries := (s.entries.delete entry.id).set entry.id e } :
      SessionPreparations Id Source CommitState).readyCount = s.readyCount := by
    rw [readyCount_eq hin, readyCount, hlast, List.countP_append, List.countP_singleton]
    rfl
  rw [touch]
  simp only [hentry]
  obtain ⟨entries', heq, hkept, hevicted, hfits⟩ :=
    evict_spec (Nat.le_trans (Nat.le_of_eq hmoved) hcount)
  exact ⟨entries', heq, fun id e' h ↦ (hget id).symm.trans (hkept id e' h),
    fun id e' h ↦ hevicted id e' ((hget id).trans h), hfits⟩

/-! ## What the operations on entries come to -/

theorem settle_eq {s : SessionPreparations Id Source CommitState} {e : ℕ}
    {entry : PreparationEntry Id Source} (hentry : s.heap e = some entry) :
    s.settle e = { s with
      heap := Function.update s.heap e (some { entry with reservationSettled := none })
      settled := fun p ↦ s.settled p || decide (entry.reservationSettled = some p) } := by
  rw [settle, hentry, Option.bind_some]
  rcases hwaiter : entry.reservationSettled with _ | p
  · have hsame : { entry with reservationSettled := none } = entry := by rw [← hwaiter]
    have hheap : Function.update s.heap e (some entry) = s.heap := by
      rw [← hentry, Function.update_eq_self]
    simp [hsame, hheap]
  · have hsettled : Function.update s.settled p true
        = fun q ↦ s.settled q || decide (some p = some q) := by
      funext q
      rw [Function.update_apply]
      split_ifs with hq
      · simp [hq]
      · simp [Ne.symm hq]
    simp only [modify, hentry, Option.map_some, hsettled]

/-- The entry of an id, removed. -/
theorem remove_eq {s : SessionPreparations Id Source CommitState} {e : ℕ}
    {entry : PreparationEntry Id Source} (hentry : s.heap e = some entry)
    (hin : s.entries.get? entry.id = some e) :
    s.remove e = { s with
      entries := s.entries.delete entry.id
      heap := Function.update s.heap e (some { entry with reservationSettled := none })
      settled := fun p ↦ s.settled p || decide (entry.reservationSettled = some p) } := by
  rw [remove, hentry]
  simp only [hin, if_true]
  exact settle_eq hentry

theorem remove_of_not_current {s : SessionPreparations Id Source CommitState} {e : ℕ}
    (h : s.current e = false) : s.remove e = s := by
  rw [remove]
  rcases hentry : s.heap e with _ | entry
  · rfl
  · have hnot : ¬ s.entries.get? entry.id = some e := by
      rw [← current_iff hentry, h]
      exact Bool.false_ne_true
    simp only [if_neg hnot]

/-- An entry made ready, which may evict another one or this one. -/
theorem makeReady_spec {s : SessionPreparations Id Source CommitState} {e : ℕ}
    {entry : PreparationEntry Id Source} (hentry : s.heap e = some entry)
    (hin : s.entries.get? entry.id = some e)
    (hkey : ∀ id, s.entries.get? id = some e → id = entry.id)
    (hcount : s.readyCount ≤ s.capacity) :
    ∃ entries', s.makeReady e = { s with
        entries := entries'
        heap := Function.update s.heap e
          (some { entry with phase := .ready, reservationSettled := none })
        settled := fun p ↦ s.settled p || decide (entry.reservationSettled = some p) } ∧
      (∀ id e', entries'.get? id = some e' → s.entries.get? id = some e') ∧
      (∀ id e', e' ≠ e → s.entries.get? id = some e' →
        entries'.get? id = some e' ∨ s.isReady e' = true) ∧
      (s.makeReady e).readyCount ≤ s.capacity := by
  have hready : (s.modify e ({ · with phase := .ready })).heap e
      = some { entry with phase := .ready } := by simp [modify, hentry]
  have hmade : (s.modify e ({ · with phase := .ready })).settle e = { s with
        heap := Function.update s.heap e
          (some { entry with phase := .ready, reservationSettled := none })
        settled := fun p ↦ s.settled p || decide (entry.reservationSettled = some p) } := by
    rw [settle_eq hready]
    simp [modify]
  rw [makeReady, if_pos ((current_iff hentry).mpr hin), hmade]
  generalize hs₁ : ({ s with
        heap := Function.update s.heap e
          (some { entry with phase := .ready, reservationSettled := none })
        settled := fun p ↦ s.settled p || decide (entry.reservationSettled = some p) } :
      SessionPreparations Id Source CommitState) = s₁
  have hheap₁ : s₁.heap = Function.update s.heap e
      (some { entry with phase := .ready, reservationSettled := none }) := by rw [← hs₁]
  have hentries₁ : s₁.entries = s.entries := by rw [← hs₁]
  have hcapacity₁ : s₁.capacity = s.capacity := by rw [← hs₁]
  have hother (e' : ℕ) (he : e' ≠ e) : s₁.isReady e' = s.isReady e' := by
    rw [isReady, isReady, hheap₁, Function.update_of_ne he]
  have hcount₁ : s₁.readyCount ≤ s₁.capacity + 1 := by
    rw [readyCount_eq (hentries₁ ▸ hin : s₁.entries.get? entry.id = some e), hcapacity₁, hentries₁]
    have hold := readyCount_eq hin
    have hsame : (s.entries.delete entry.id).entries.countP (fun p ↦ s₁.isReady p.2)
        = (s.entries.delete entry.id).entries.countP (fun p ↦ s.isReady p.2) := by
      apply List.countP_congr
      rintro ⟨id, e'⟩ hp
      obtain ⟨hid, hmem⟩ := Ecma.OrderedMap.mem_delete.mp hp
      have he : e' ≠ e := by
        rintro rfl
        exact hid (hkey id (Ecma.OrderedMap.get?_eq_some_iff.mpr hmem))
      rw [hother e' he]
    rw [hsame]
    split_ifs <;> omega
  have hentry₁ : s₁.heap e = some { entry with phase := .ready, reservationSettled := none } := by
    rw [hheap₁, Function.update_self]
  obtain ⟨entries', heq, hkept, hevicted, hfits⟩ :=
    touch_spec hentry₁ (hentries₁ ▸ hin : s₁.entries.get? entry.id = some e) hcount₁
  refine ⟨entries', ?_, fun id e' h ↦ hentries₁ ▸ hkept id e' h, fun id e' he h ↦ ?_,
    hcapacity₁ ▸ hfits⟩
  · rw [heq, ← hs₁]
  · rw [← hother e' he]
    exact hevicted id e' (hentries₁.symm ▸ h)

theorem Ok.key {s : SessionPreparations Id Source CommitState} (h : s.Ok) {e : ℕ}
    {entry : PreparationEntry Id Source} (hentry : s.heap e = some entry) (id : Id)
    (hid : s.entries.get? id = some e) : id = entry.id := by
  obtain ⟨x, hx, rfl⟩ := h.keyed id e hid
  rw [Option.some.inj (hentry.symm.trans hx)]

/-- A change that touches nothing but the fields of one entry. -/
private theorem Ok.modifyFields {s : SessionPreparations Id Source CommitState} (h : s.Ok) {e : ℕ}
    {entry : PreparationEntry Id Source} (hentry : s.heap e = some entry)
    {f : PreparationEntry Id Source → PreparationEntry Id Source} (hid : (f entry).id = entry.id)
    (hwaiter : (f entry).reservationSettled = entry.reservationSettled)
    (hphase : (f entry).phase = entry.phase)
    (hresult : entry.result.isSome = true → (f entry).result.isSome = true)
    (hok : EntryOk (s.current e) s.settled (f entry)) : (s.modify e f).Ok := by
  have hheap : (s.modify e f).heap = Function.update s.heap e (some (f entry)) := by
    rw [modify, hentry, Option.map_some]
  have hentry' : (s.modify e f).heap e = some (f entry) := by rw [hheap, Function.update_self]
  have hcur : (s.modify e f).current e = s.current e := by
    rw [Bool.eq_iff_iff, current_iff hentry', current_iff hentry, hid]
    rfl
  refine h.change (?_ : Change s _ e entry (f entry)) ?_ ?_ ?_
  · refine ⟨hentry, hheap, hid, fun _ _ hi ↦ hi, fun _ _ _ hi ↦ .inl hi, fun p ↦ ?_, fun p hp ↦ ?_,
      Nat.le_refl _, rfl, rfl, ?_⟩
    · rw [hwaiter]
      exact ⟨.inl, fun hp ↦ hp.elim (fun hp ↦ hp) fun hp ↦ absurd hp.1 hp.2⟩
    · exact .inl (hwaiter ▸ hp)
    · exact Nat.le_trans (readyCount_modify_le hentry fun hr ↦ hphase.symm.trans hr) h.capacity
  · rw [hcur]
    exact hok
  · exact fun hold hnew ↦ absurd (hphase.trans hold) hnew
  · exact hresult

theorem Ok.remove {s : SessionPreparations Id Source CommitState} (h : s.Ok) (e : ℕ) :
    (s.remove e).Ok := by
  rcases hcur : s.current e with _ | _
  · rwa [remove_of_not_current hcur]
  obtain ⟨entry, hentry⟩ : ∃ entry, s.heap e = some entry := by
    rcases hentry : s.heap e with _ | entry
    · simp [current, hentry] at hcur
    · exact ⟨entry, rfl⟩
  have hin := (current_iff hentry).mp hcur
  have hold := h.entry e entry hentry
  rw [remove_eq hentry hin]
  refine h.change (?_ : Change s _ e entry { entry with reservationSettled := none }) ?_ ?_ ?_
  · refine ⟨hentry, rfl, rfl, fun id e' hid ↦ ?_, fun id e' he hid ↦ .inl ?_, fun p ↦ ?_, by simp,
      Nat.le_refl _, rfl, rfl, ?_⟩
    · rw [Ecma.OrderedMap.get?_delete] at hid
      split_ifs at hid
      exact hid
    · rw [Ecma.OrderedMap.get?_delete]
      split_ifs with hsame
      · exact absurd (Option.some.inj (hid.symm.trans (hsame ▸ hin))) he
      · exact hid
    · simp
    · refine Nat.le_trans (readyCount_mono List.filter_sublist ?_) h.capacity
      intro p _ hready
      by_cases hp : p.2 = e
      · simpa [isReady, hp, hentry] using hready
      · simpa [isReady, Function.update_of_ne hp] using hready
  · have hgone : (({ s with
        entries := s.entries.delete entry.id
        heap := Function.update s.heap e (some { entry with reservationSettled := none })
        settled := fun p ↦ s.settled p || decide (entry.reservationSettled = some p) } :
        SessionPreparations Id Source CommitState).current e) = false := by
      simp [current, Ecma.OrderedMap.get?_delete]
    rw [hgone]
    exact ⟨hold.pending, by simp, hold.source, by simp, by simp, by simp⟩
  · exact fun hphase hne ↦ absurd hphase hne
  · exact fun hresult ↦ hresult

theorem current_remove (s : SessionPreparations Id Source CommitState) (e : ℕ) :
    (s.remove e).current e = false := by
  rcases hcur : s.current e with _ | _
  · rwa [remove_of_not_current hcur]
  rcases hentry : s.heap e with _ | entry
  · simp [current, hentry] at hcur
  · rw [remove_eq hentry ((current_iff hentry).mp hcur)]
    simp [current, Ecma.OrderedMap.get?_delete]

/-- An entry that is made ready is left in order: it has a source, and no reservation or waiter. -/
theorem Ok.makeReady {s : SessionPreparations Id Source CommitState} (h : s.Ok) {e : ℕ}
    {entry : PreparationEntry Id Source} (hentry : s.heap e = some entry)
    (hcommits : entry.phase = .committing →
      ∀ c call, s.calls c = some call → call.entry = e → call.stage ≠ .committing)
    {f g : PreparationEntry Id Source → PreparationEntry Id Source}
    (hf : (f entry).id = entry.id ∧ (f entry).phase = entry.phase ∧
      (f entry).reservationSettled = entry.reservationSettled)
    (hg : ∀ entry, (g entry).id = entry.id ∧ (g entry).phase = entry.phase ∧
      (g entry).reservationSettled = entry.reservationSettled)
    (hcur : s.current e = true)
    (hresult : (g { f entry with phase := .ready, reservationSettled := none }).result.isSome = true)
    (hsource : (g { f entry with phase := .ready, reservationSettled := none }).source.isSome = true)
    (hreservation : (g { f entry with phase := .ready, reservationSettled := none }).reservation
      = none) : (((s.modify e f).makeReady e).modify e g).Ok := by
  have hin := (current_iff hentry).mp hcur
  have hentry₁ : (s.modify e f).heap e = some (f entry) := by simp [modify, hentry]
  have hin₁ : (s.modify e f).entries.get? (f entry).id = some e := by rw [hf.1]; exact hin
  have hcount₁ : (s.modify e f).readyCount ≤ (s.modify e f).capacity :=
    Nat.le_trans (readyCount_modify_le hentry fun hr ↦ hf.2.1.symm.trans hr) h.capacity
  obtain ⟨entries', heq, hkept, hevicted, hfits⟩ := makeReady_spec hentry₁ hin₁
    (fun id hid ↦ (h.key hentry id hid).trans hf.1.symm) hcount₁
  obtain ⟨hgid, hgphase, hgwaiter⟩ := hg { f entry with phase := .ready, reservationSettled := none }
  have hmade : ((s.modify e f).makeReady e).heap e
      = some { f entry with phase := .ready, reservationSettled := none } := by
    rw [heq]
    exact Function.update_self _ _ _
  have hheap : (((s.modify e f).makeReady e).modify e g).heap
      = Function.update s.heap e
        (some (g { f entry with phase := .ready, reservationSettled := none })) := by
    rw [modify, hmade, heq]
    simp [modify]
  have hsettled (p : ℕ) : (((s.modify e f).makeReady e).modify e g).settled p
      = (s.settled p || decide (entry.reservationSettled = some p)) := by
    rw [modify, heq, hf.2.2]
    rfl
  have hold := h.entry e entry hentry
  refine h.change (?_ : Change s _ e entry
    (g { f entry with phase := .ready, reservationSettled := none })) ?_ ?_ ?_
  · refine ⟨hentry, hheap, hgid.trans hf.1, fun id e' hid ↦ ?_, fun id e' he hid ↦ ?_, fun p ↦ ?_,
      fun p hp ↦ ?_, ?_, ?_, ?_, ?_⟩
    · apply hkept id e'
      rwa [modify, heq] at hid
    · rw [modify, heq, ← isReady_modify_of_ne s he f]
      exact hevicted id e' he hid
    · rw [hsettled, hgwaiter]
      simp
    · rw [hgwaiter] at hp
      exact absurd hp (by simp)
    · rw [modify, heq]
      exact Nat.le_refl _
    · rw [modify, heq]
      rfl
    · rw [modify, heq]
      rfl
    · refine Nat.le_trans (readyCount_modify_le hmade fun _ ↦ rfl) ?_
      rw [modify, heq] at *
      exact hfits
  · refine ⟨fun hnone ↦ ?_, fun _ hloading ↦ ?_, fun _ ↦ hsource, ?_, ?_, fun _ ↦ ?_⟩
    · rw [hnone] at hresult
      exact absurd hresult Bool.false_ne_true
    · exact absurd (hgphase.symm.trans hloading) (by simp)
    · rw [hgwaiter]
      simp
    · rw [hgwaiter, hgphase]
      simp
    · rw [hreservation, hgphase]
      simp
  · exact fun hphase _ ↦ hcommits hphase
  · exact fun _ ↦ hresult

/-! ## Calls -/

/-- The calls of a pool, one of them set. -/
private def withCall (s : SessionPreparations Id Source CommitState) (c : ℕ)
    (call : PreparationCall Source) : SessionPreparations Id Source CommitState :=
  { s with calls := Function.update s.calls c (some call) }

private theorem Ok.withCall {s : SessionPreparations Id Source CommitState} (h : s.Ok) (c : ℕ)
    {call : PreparationCall Source} {entry : PreparationEntry Id Source}
    (hentry : s.heap call.entry = some entry) (hok : CallOk s.settled entry call.stage)
    (hone : call.stage = .committing → ∀ c' call', s.calls c' = some call' →
      call'.entry = call.entry → call'.stage = .committing → c' = c) : (s.withCall c call).Ok := by
  have hcalls (c' : ℕ) : (SessionPreparations.withCall s c call).calls c'
      = if c' = c then some call else s.calls c' := Function.update_apply _ _ _ _
  refine ⟨h.keyed, h.fresh, h.entry, h.distinct, h.unissued, h.issued, fun c' call' hcall ↦ ?_,
    fun c₁ c₂ call₁ call₂ h₁ h₂ he hst₁ hst₂ ↦ ?_, h.capacity⟩
  · rw [hcalls] at hcall
    split_ifs at hcall with hc
    · exact Option.some.inj hcall ▸ ⟨entry, hentry, hok⟩
    · exact h.calls c' call' hcall
  · rw [hcalls] at h₁ h₂
    split_ifs at h₁ h₂ with hc₁ hc₂ hc₂
    · exact hc₁.trans hc₂.symm
    · obtain rfl := Option.some.inj h₁
      exact hc₁.trans (hone hst₁ c₂ call₂ h₂ he.symm hst₂).symm
    · obtain rfl := Option.some.inj h₂
      exact (hone hst₂ c₁ call₁ h₁ he hst₁).trans hc₂.symm
    · exact h.oneCommit c₁ c₂ call₁ call₂ h₁ h₂ he hst₁ hst₂

theorem setStage_eq {s : SessionPreparations Id Source CommitState} {c : ℕ}
    {call : PreparationCall Source} (hcall : s.calls c = some call)
    (stage : PreparationStage Source) :
    s.setStage c stage = s.withCall c { call with stage := stage } := by
  rw [setStage, withCall, hcall, Option.map_some]

/-- A call that is over, or not yet past its load. -/
def PreparationStage.Idle (stage : PreparationStage Source) : Prop :=
  stage ≠ .committing ∧ (∀ p, stage ≠ .awaitingReservation p) ∧ stage ≠ .threw .lostWaiter

private theorem callOk_idle (settled : ℕ → Bool) (entry : PreparationEntry Id Source)
    {stage : PreparationStage Source} (h : PreparationStage.Idle stage) :
    CallOk settled entry stage where
  loaded p hp := absurd hp (h.2.1 p)
  waiting p hp := absurd hp (h.2.1 p)
  committing hp := absurd hp h.1
  waiterKept := h.2.2

theorem Ok.setStage {s : SessionPreparations Id Source CommitState} (h : s.Ok) (c : ℕ)
    {stage : PreparationStage Source} (hidle : PreparationStage.Idle stage) :
    (s.setStage c stage).Ok := by
  rcases hcall : s.calls c with _ | call
  · have hsame : s.setStage c stage = s := by
      rw [SessionPreparations.setStage, hcall, Option.map_none, ← hcall, Function.update_eq_self]
    rwa [hsame]
  · obtain ⟨entry, hentry, -⟩ := h.calls c call hcall
    rw [setStage_eq hcall]
    exact h.withCall c hentry (callOk_idle _ entry hidle) fun hstage ↦ absurd hstage hidle.1

/-- Once the call that commits an entry is over, none commits it. -/
private theorem Ok.noCommit {s : SessionPreparations Id Source CommitState} (h : s.Ok) {c : ℕ}
    {call : PreparationCall Source} (hcall : s.calls c = some call)
    (hcommit : call.stage = .committing) {stage : PreparationStage Source}
    (hidle : PreparationStage.Idle stage) (c' : ℕ) (call' : PreparationCall Source)
    (hcall' : (s.setStage c stage).calls c' = some call') (he : call'.entry = call.entry) :
    call'.stage ≠ .committing := by
  simp only [setStage_eq hcall, SessionPreparations.withCall] at hcall'
  by_cases hc : c' = c
  · rw [hc, Function.update_self] at hcall'
    rw [← Option.some.inj hcall']
    exact hidle.1
  · rw [Function.update_of_ne hc] at hcall'
    exact fun hst ↦ hc (h.oneCommit c' c call' call hcall' hcall he hst hcommit)

private theorem Ok.entryFor {s : SessionPreparations Id Source CommitState} (h : s.Ok) (id : Id) :
    (s.entryFor id).1.Ok ∧ ∃ entry, (s.entryFor id).1.heap (s.entryFor id).2 = some entry := by
  rw [SessionPreparations.entryFor]
  rcases hget : s.entries.get? id with _ | e
  swap
  · obtain ⟨entry, hentry, -⟩ := h.keyed id e hget
    exact ⟨h, entry, hentry⟩
  simp only
  have hnew : s.heap s.nextEntry = none := h.fresh _ (Nat.le_refl _)
  have hother (e : ℕ) (entry : PreparationEntry Id Source) (hentry : s.heap e = some entry) :
      e ≠ s.nextEntry := by
    rintro rfl
    exact absurd (hnew.symm.trans hentry) (by simp)
  generalize hs' : ({ s with
      entries := s.entries.set id s.nextEntry
      heap := Function.update s.heap s.nextEntry (some { id := id })
      nextEntry := s.nextEntry + 1 } : SessionPreparations Id Source CommitState) = s'
  have hheap (e : ℕ) : s'.heap e
      = if e = s.nextEntry then some { id := id } else s.heap e := by
    rw [← hs']
    exact Function.update_apply _ _ _ _
  have hget' (id' : Id) : s'.entries.get? id'
      = if id' = id then some s.nextEntry else s.entries.get? id' := by
    rw [← hs']
    exact Ecma.OrderedMap.get?_set _ _ _ _
  have hcur (e : ℕ) (entry : PreparationEntry Id Source) (hentry : s.heap e = some entry) :
      s'.current e = s.current e := by
    have hentry' : s'.heap e = some entry := by rw [hheap, if_neg (hother e entry hentry), hentry]
    rw [Bool.eq_iff_iff, current_iff hentry', current_iff hentry, hget']
    split_ifs with hid
    · rw [hid, hget]
      simp [(hother e entry hentry).symm]
    · exact Iff.rfl
  have hwaiter (e : ℕ) : s'.waiter e = if e = s.nextEntry then none else s.waiter e := by
    rw [waiter, hheap]
    split_ifs <;> rfl
  have hsettled : s'.settled = s.settled := by rw [← hs']
  have hcalls : s'.calls = s.calls := by rw [← hs']
  have hpromise : s'.nextPromise = s.nextPromise := by rw [← hs']
  refine ⟨⟨fun id' e he ↦ ?_, fun e he ↦ ?_, fun e entry hentry ↦ ?_, fun e e' p ↦ ?_,
    hsettled ▸ hpromise ▸ h.unissued, fun e p ↦ ?_, fun c call hcall ↦ ?_, hcalls ▸ h.oneCommit,
    ?_⟩, { id := id }, Function.update_self _ _ _⟩
  · rw [hget'] at he
    split_ifs at he with hid
    · rw [← Option.some.inj he, hheap, if_pos rfl]
      exact ⟨_, rfl, hid.symm⟩
    · obtain ⟨entry, hentry, rfl⟩ := h.keyed id' e he
      exact ⟨entry, by rw [hheap, if_neg (hother e entry hentry), hentry], rfl⟩
  · have he' : s.nextEntry + 1 ≤ e := by rwa [← hs'] at he
    rw [hheap, if_neg (Nat.ne_of_gt he')]
    exact h.fresh e (Nat.le_of_succ_le he')
  · rw [hheap] at hentry
    split_ifs at hentry with he
    · rw [← Option.some.inj hentry]
      exact ⟨fun _ ↦ rfl, fun _ _ ↦ rfl, fun hne ↦ absurd rfl hne, by simp, by simp, by simp⟩
    · rw [hcur e entry hentry, hsettled]
      exact h.entry e entry hentry
  · rw [hwaiter, hwaiter]
    split_ifs
    · simp
    · simp
    · exact fun _ ↦ (by simp)
    · exact h.distinct e e' p
  · rw [hwaiter, hpromise]
    split_ifs
    · simp
    · exact h.issued e p
  · rw [hcalls] at hcall
    obtain ⟨entry, hentry, hok⟩ := h.calls c call hcall
    exact ⟨entry, by rw [hheap, if_neg (hother _ entry hentry), hentry], hsettled ▸ hok⟩
  · -- The new entry is not ready, and the others are as they were.
    rw [readyCount, ← hs']
    simp only [Ecma.OrderedMap.entries_set_of_get?_eq_none hget, List.countP_append,
      List.countP_singleton]
    rw [hs']
    have hnotReady : s'.isReady s.nextEntry = false := by simp [isReady, hheap]
    have hcapacity : s'.capacity = s.capacity := by rw [← hs']
    simp only [hnotReady]
    refine Nat.le_trans (List.countP_mono_left ?_) h.capacity
    intro p _ hp
    by_cases he : p.2 = s.nextEntry
    · rw [he, hnotReady] at hp
      exact absurd hp Bool.false_ne_true
    · rwa [isReady, hheap, if_neg he] at hp

/-! ## Each operation -/

private theorem Ok.call {s : SessionPreparations Id Source CommitState} (h : s.Ok) (id : Id)
    (reserves : Bool) : (s.call id reserves).Ok := by
  obtain ⟨hok, entry, hentry⟩ := h.entryFor id
  have hcall := @Ok.withCall _ _ _ _ _ hok (s.entryFor id).1.nextCall
    { reserves := reserves, entry := (s.entryFor id).2 } entry hentry
    (callOk_idle _ entry ⟨by simp, by simp, by simp⟩) (by simp)
  exact ⟨hcall.keyed, hcall.fresh, hcall.entry, hcall.distinct, hcall.unissued, hcall.issued,
    hcall.calls, hcall.oneCommit, hcall.capacity⟩

private theorem Ok.loaded {s : SessionPreparations Id Source CommitState} (h : s.Ok) (e : ℕ)
    (source : Option Source) : (s.loaded e source).Ok := by
  unfold SessionPreparations.loaded
  rcases hentry : s.heap e with _ | entry
  · exact h
  simp only
  by_cases hsettled : entry.result.isSome = true
  · rw [if_pos hsettled]
    exact h
  rw [if_neg hsettled]
  have hnone : entry.result = none := by simpa using hsettled
  have hold := h.entry e entry hentry
  have hloading := hold.pending hnone
  -- An entry that is no longer the one of its id only learns the result.
  have hlearn {s' : SessionPreparations Id Source CommitState} (h' : s'.Ok)
      {entry' : PreparationEntry Id Source} (hentry' : s'.heap e = some entry')
      (hgone : s'.current e = false) :
      (s'.modify e ({ · with result := some source })).Ok := by
    have hold' := h'.entry e entry' hentry'
    rw [hgone] at hold'
    apply h'.modifyFields hentry' rfl rfl rfl (fun _ ↦ rfl)
    rw [hgone]
    exact ⟨by simp, by simp, hold'.source, hold'.unsettled, hold'.waits, by simp⟩
  rcases source with _ | source
  · simp only
    rcases hcur : s.current e with _ | _
    · rw [remove_of_not_current hcur]
      exact hlearn h hentry hcur
    · have hremoved : (s.remove e).heap e = some { entry with reservationSettled := none } := by
        rw [remove_eq hentry ((current_iff hentry).mp hcur)]
        exact Function.update_self _ _ _
      exact hlearn (h.remove e) hremoved (current_remove s e)
  · simp only
    split_ifs with hcur
    · have hreservation : entry.reservation = none := by
        rw [← Option.not_isSome_iff_eq_none, hold.reserved hcur, hloading]
        simp
      exact h.makeReady hentry (fun hne ↦ absurd (hloading.symm.trans hne) (by simp))
        ⟨rfl, rfl, rfl⟩ (fun _ ↦ ⟨rfl, rfl, rfl⟩) hcur rfl rfl hreservation
    · exact hlearn h hentry (by simpa using hcur)

private theorem Ok.proceed {s : SessionPreparations Id Source CommitState} (h : s.Ok) {c : ℕ}
    {call : PreparationCall Source} (hcall : s.calls c = some call)
    {entry : PreparationEntry Id Source} (hentry : s.heap call.entry = some entry)
    (hloaded : entry.result.isSome = true) : (s.proceed c call.entry).Ok := by
  have hold := h.entry call.entry entry hentry
  rw [SessionPreparations.proceed, hentry]
  simp only
  split_ifs with hgone hwait
  · exact h.setStage c ⟨by simp, by simp, by simp⟩
  · have hcur := (current_iff hentry).mpr (not_not.mp hgone)
    have hbusy : entry.phase = .committing ∨ entry.phase = .reserved := by
      rcases hphase : entry.phase with _ | _ | _ | _
      · have hpending := hold.loading hcur hphase
        rw [hpending] at hloaded
        exact absurd hloaded Bool.false_ne_true
      · exact absurd hphase hwait
      · exact .inl rfl
      · exact .inr rfl
    obtain ⟨p, hp⟩ := Option.isSome_iff_exists.mp (hold.waits.mpr ⟨hcur, hbusy⟩)
    simp only [hp]
    rw [setStage_eq hcall]
    refine h.withCall c hentry ⟨fun _ _ ↦ hloaded, fun q hq ↦ .inr ?_, by simp, by simp⟩ (by simp)
    rw [hp, PreparationStage.awaitingReservation.inj hq]
  · have hready := not_not.mp hwait
    have hin := not_not.mp hgone
    have hcur := (current_iff hentry).mpr hin
    have hidle : entry.reservationSettled = none := by
      rw [← Option.not_isSome_iff_eq_none, hold.waits, hready]
      simp
    generalize hs' : ({ s.modify call.entry
        ({ · with phase := .committing, reservationSettled := some s.nextPromise }) with
        nextPromise := s.nextPromise + 1 } : SessionPreparations Id Source CommitState) = s'
    have hheap : s'.heap = Function.update s.heap call.entry
        (some { entry with phase := .committing, reservationSettled := some s.nextPromise }) := by
      rw [← hs']
      simp [modify, hentry]
    have hcalls : s'.calls = s.calls := by rw [← hs']; rfl
    have hsettled : s'.settled = s.settled := by rw [← hs']; rfl
    have hentries : s'.entries = s.entries := by rw [← hs']; rfl
    have hentry' : s'.heap call.entry = some { entry with
        phase := .committing, reservationSettled := some s.nextPromise } := by
      rw [hheap, Function.update_self]
    have hcur' : s'.current call.entry = true := by
      rw [current_iff hentry', hentries]
      exact hin
    have hs'ok : s'.Ok := by
      refine h.change (?_ : Change s s' call.entry entry { entry with
        phase := .committing, reservationSettled := some s.nextPromise }) ?_ ?_ ?_
      · refine ⟨hentry, hheap, rfl, fun id e' hid ↦ hentries ▸ hid, fun id e' _ hid ↦
          .inl (hentries.symm ▸ hid), fun p ↦ ?_, fun p hp ↦ .inr ?_, ?_, hcalls, ?_, ?_⟩
        · rw [hsettled, hidle]
          simp
        · rw [← Option.some.inj hp, ← hs']
          exact ⟨Nat.le_refl _, Nat.lt_succ_self _⟩
        · rw [← hs']
          exact Nat.le_succ _
        · rw [← hs']
          rfl
        · rw [← hs']
          exact Nat.le_trans (readyCount_modify_le hentry (by simp)) h.capacity
      · rw [hcur', hsettled]
        refine ⟨fun hnone ↦ ?_, fun _ ↦ (by simp), fun _ ↦ hold.source (by simp [hready]), ?_, by simp,
          fun _ ↦ ?_⟩
        · have hunloaded : entry.result = none := hnone
          simp [hunloaded] at hloaded
        · exact fun p hp ↦ Option.some.inj hp ▸ h.unissued _ (Nat.le_refl _)
        · have hfree := hold.reserved hcur
          rw [hready] at hfree
          simpa using hfree
      · exact fun hphase ↦ absurd (hready.symm.trans hphase) (by simp)
      · exact fun hresult ↦ hresult
    rw [setStage_eq (hcalls.symm ▸ hcall : s'.calls c = some call)]
    refine hs'ok.withCall c hentry' ⟨by simp, by simp, fun _ ↦ rfl, by simp⟩ ?_
    -- No other call commits an entry that was ready a moment ago.
    intro _ c' call' hcall' he hst
    rw [hcalls] at hcall'
    obtain ⟨x, hx, hxok⟩ := h.calls c' call' hcall'
    rw [he] at hx
    have hphase := hxok.committing hst
    rw [← Option.some.inj (hentry.symm.trans hx), hready] at hphase
    exact absurd hphase (by simp)

private theorem Ok.touch {s : SessionPreparations Id Source CommitState} (h : s.Ok) {e : ℕ}
    {entry : PreparationEntry Id Source} (hentry : s.heap e = some entry)
    (hcur : s.current e = true) (hready : entry.phase = .ready) : (s.touch e).Ok := by
  have hin := (current_iff hentry).mp hcur
  obtain ⟨entries', heq, hkept, hevicted, hfits⟩ :=
    touch_spec hentry hin (Nat.le_succ_of_le h.capacity)
  have hold := h.entry e entry hentry
  rw [heq] at hfits ⊢
  refine h.change (?_ : Change s _ e entry entry) ?_ ?_ ?_
  · refine ⟨hentry, ?_, rfl, hkept, fun id e' _ hid ↦ hevicted id e' hid, fun p ↦ ?_,
      fun p hp ↦ .inl hp, Nat.le_refl _, rfl, rfl, hfits⟩
    · rw [← hentry, Function.update_eq_self]
    · exact ⟨.inl, fun hp ↦ hp.elim (fun hp ↦ hp) fun hp ↦ absurd hp.1 hp.2⟩
  · refine ⟨hold.pending, fun _ hne ↦ absurd (hready.symm.trans hne) (by simp), hold.source,
      hold.unsettled, ?_, fun _ ↦ hold.reserved hcur⟩
    rw [hold.waits, hready]
    simp
  · exact fun hphase hne ↦ absurd hphase hne
  · exact fun hresult ↦ hresult

private theorem Ok.resume {s : SessionPreparations Id Source CommitState} (h : s.Ok) (c : ℕ) :
    (s.resume c).Ok := by
  rw [SessionPreparations.resume]
  rcases hcall : s.calls c with _ | call
  · exact h
  obtain ⟨entry, hentry, hok⟩ := h.calls c call hcall
  simp only
  rcases hstage : call.stage with _ | p | _ | _ | _ | _
  all_goals simp only
  · rw [resumeLoaded, hentry]
    simp only
    rcases hresult : entry.result with _ | _ | source
    · exact h
    · exact h.setStage c ⟨by simp, by simp, by simp⟩
    · simp only
      split_ifs with hreserves hready
      · exact h.proceed hcall hentry (by simp [hresult])
      · rw [Bool.and_eq_true, isReady_iff hentry] at hready
        exact (h.touch hentry hready.1 hready.2).setStage c ⟨by simp, by simp, by simp⟩
      · exact h.setStage c ⟨by simp, by simp, by simp⟩
  · split_ifs
    · exact h.proceed hcall hentry (hok.loaded p hstage)
    · exact h
  all_goals exact h

private theorem Ok.cancelled {s : SessionPreparations Id Source CommitState} (h : s.Ok) (c : ℕ) :
    (s.cancelled c).Ok := by
  rw [SessionPreparations.cancelled]
  rcases s.calls c with _ | call
  · exact h
  simp only
  split
  · exact h.setStage c ⟨by simp, by simp, by simp⟩
  · exact h.setStage c ⟨by simp, by simp, by simp⟩
  · exact h

/-! Making an entry ready does not look at the calls. -/

private theorem evict_setStage (s : SessionPreparations Id Source CommitState) (c : ℕ)
    (stage : PreparationStage Source) : (s.setStage c stage).evict = s.evict.setStage c stage := by
  have hcount : (s.setStage c stage).readyCount = s.readyCount := rfl
  have hfind : ((s.setStage c stage).entries.entries.find? fun p ↦ (s.setStage c stage).isReady p.2)
      = s.entries.entries.find? fun p ↦ s.isReady p.2 := rfl
  have hcapacity : (s.setStage c stage).capacity = s.capacity := rfl
  rw [evict, evict, hcount, hfind, hcapacity]
  split_ifs
  · rfl
  · generalize s.entries.entries.find? (fun p ↦ s.isReady p.2) = found
    rcases found with _ | p
    · rfl
    · rfl

private theorem makeReady_setStage (s : SessionPreparations Id Source CommitState) (e c : ℕ)
    (stage : PreparationStage Source) :
    (s.setStage c stage).makeReady e = (s.makeReady e).setStage c stage := by
  have hcur : (s.setStage c stage).current e = s.current e := rfl
  have hsettle : ((s.setStage c stage).modify e ({ · with phase := .ready })).settle e
      = ((s.modify e ({ · with phase := .ready })).settle e).setStage c stage := by
    have hheap : ((s.setStage c stage).modify e ({ · with phase := .ready })).heap
        = (s.modify e ({ · with phase := .ready })).heap := rfl
    rw [settle, settle, hheap]
    rcases ((s.modify e ({ · with phase := .ready })).heap e).bind (·.reservationSettled) with _ | p
    · rfl
    · rfl
  have htouch (t : SessionPreparations Id Source CommitState) :
      (t.setStage c stage).touch e = (t.touch e).setStage c stage := by
    have hheap : (t.setStage c stage).heap = t.heap := rfl
    rw [touch, touch, hheap]
    rcases t.heap e with _ | entry
    · rfl
    · exact evict_setStage
        { t with entries := (t.entries.delete entry.id).set entry.id e } c stage
  rw [makeReady, makeReady, hcur]
  split_ifs
  · rw [hsettle, htouch]
  · rfl

private theorem modify_id (s : SessionPreparations Id Source CommitState) (e : ℕ) :
    s.modify e (fun entry ↦ entry) = s := by
  have hmap : (s.heap e).map (fun entry ↦ entry) = s.heap e := Option.map_id'
  rw [modify, hmap, Function.update_eq_self]

/-- A committed entry that is reserved for the call that committed it. -/
private theorem Ok.reserveEntry {s : SessionPreparations Id Source CommitState} (h : s.Ok) {e : ℕ}
    {entry : PreparationEntry Id Source} (hentry : s.heap e = some entry)
    (hcur : s.current e = true) (hphase : entry.phase = .committing)
    (hover : ∀ c call, s.calls c = some call → call.entry = e → call.stage ≠ .committing)
    (source : Source) (r : ℕ)
    (reservations : ℕ → Option (SessionPreparationReservation Source CommitState)) (n : ℕ) :
    Ok { s with
      heap := Function.update s.heap e (some { entry with
        source := some source, phase := .reserved, reservation := some r })
      reservations := reservations
      nextReservation := n } := by
  have hin := (current_iff hentry).mp hcur
  have hold := h.entry e entry hentry
  refine h.change (?_ : Change s _ e entry { entry with
    source := some source, phase := .reserved, reservation := some r }) ?_ ?_ ?_
  · refine ⟨hentry, rfl, rfl, fun _ _ hid ↦ hid, fun _ _ _ hid ↦ .inl hid, fun p ↦ ?_,
      fun p hp ↦ .inl hp, Nat.le_refl _, rfl, rfl, ?_⟩
    · exact ⟨.inl, fun hp ↦ hp.elim (fun hp ↦ hp) fun hp ↦ absurd hp.1 hp.2⟩
    · have hsub : s.entries.entries.Sublist s.entries.entries := List.Sublist.refl _
      refine Nat.le_trans (@readyCount_mono _ _ _ _ s _ hsub ?_) h.capacity
      intro p _ hready
      by_cases hp : p.2 = e
      · simp [isReady, hp] at hready
      · simpa [isReady, Function.update_of_ne hp] using hready
  · have hnow : SessionPreparations.current { s with
        heap := Function.update s.heap e (some { entry with
          source := some source, phase := .reserved, reservation := some r })
        reservations := reservations
        nextReservation := n } e = true := by simp [current, hin]
    rw [hnow]
    refine ⟨fun hnone ↦ ?_, fun _ ↦ (by simp), fun _ ↦ rfl, hold.unsettled, ?_, by simp⟩
    · exact absurd (hphase.symm.trans (hold.pending hnone)) (by simp)
    · simpa [hcur, hphase] using hold.waits
  · exact fun _ _ ↦ hover
  · exact fun hresult ↦ hresult

private theorem Ok.reserved {s : SessionPreparations Id Source CommitState} (h : s.Ok) {c : ℕ}
    {call : PreparationCall Source} (hcall : s.calls c = some call)
    (hcommit : call.stage = .committing) (source : Source) (state : CommitState) :
    (s.reserved c call source state).Ok := by
  obtain ⟨entry, hentry, hcallOk⟩ := h.calls c call hcall
  have hphase := hcallOk.committing hcommit
  have hold := h.entry call.entry entry hentry
  have hresult : entry.result.isSome = true := by
    rw [Option.isSome_iff_ne_none]
    exact fun hnone ↦ absurd (hphase.symm.trans (hold.pending hnone)) (by simp)
  have hsourced : (s.modify call.entry ({ · with source := some source })).Ok := by
    refine h.modifyFields hentry rfl rfl rfl (fun hr ↦ hr) ?_
    exact ⟨hold.pending, hold.loading, fun _ ↦ rfl, hold.unsettled, hold.waits, hold.reserved⟩
  have hcalls : (s.modify call.entry ({ · with source := some source })).calls = s.calls := rfl
  have hcur : (s.modify call.entry ({ · with source := some source })).current call.entry
      = s.current call.entry := by
    simp [current, modify, hentry]
  rw [SessionPreparations.reserved, hcur]
  simp only
  split_ifs with haborted hgone
  · have hidle : PreparationStage.Idle (.threw .abort : PreparationStage Source) :=
      ⟨by simp, by simp, by simp⟩
    rw [← makeReady_setStage]
    have hover := h.setStage c hidle
    rcases hnow : s.current call.entry with _ | _
    · rw [SessionPreparations.makeReady, if_neg]
      · exact hsourced.setStage c hidle
      · exact fun hmoved ↦ absurd (hnow.symm.trans (hcur.symm.trans hmoved)) (by simp)
    · have hfree : entry.reservation = none := by
        rw [← Option.not_isSome_iff_eq_none, hold.reserved hnow, hphase]
        simp
      rw [← modify_id ((s.modify call.entry ({ · with source := some source })).setStage c
        (.threw .abort) |>.makeReady call.entry) call.entry]
      exact hover.makeReady hentry (fun _ ↦ h.noCommit hcall hcommit hidle) ⟨rfl, rfl, rfl⟩
        (fun _ ↦ ⟨rfl, rfl, rfl⟩) hnow hresult rfl hfree
  · exact hsourced.setStage c ⟨by simp, by simp, by simp⟩
  · have hidle : PreparationStage.Idle
        (.returned (some s.nextReservation) : PreparationStage Source) := ⟨by simp, by simp, by simp⟩
    have hnow : s.current call.entry = true := by simpa using hgone
    have hover := (h.setStage c hidle).reserveEntry hentry hnow hphase
      (h.noCommit hcall hcommit hidle) source s.nextReservation
      (Function.update s.reservations s.nextReservation (some ⟨call.entry, source, state⟩))
      (s.nextReservation + 1)
    convert hover using 1
    simp [SessionPreparations.setStage, modify, hentry]

private theorem Ok.committed {s : SessionPreparations Id Source CommitState} (h : s.Ok) (c : ℕ)
    (outcome : Option (Option (Source × CommitState))) : (s.committed c outcome).Ok := by
  rw [SessionPreparations.committed]
  rcases hcall : s.calls c with _ | call
  · exact h
  simp only
  rcases hstage : call.stage with _ | p | _ | _ | _ | _
  case committing =>
    rcases outcome with _ | _ | ⟨source, state⟩
    · exact (h.remove _).setStage c ⟨by simp, by simp, by simp⟩
    · exact (h.remove _).setStage c ⟨by simp, by simp, by simp⟩
    · exact h.reserved hcall hstage source state
  all_goals exact h

theorem held_eq_some {s : SessionPreparations Id Source CommitState} {r e : ℕ}
    (h : s.held r = some e) : ∃ entry, s.heap e = some entry ∧
      s.entries.get? entry.id = some e ∧ entry.reservation = some r := by
  rw [held] at h
  rcases hr : s.reservations r with _ | reservation
  · simp [hr] at h
  simp only [hr] at h
  split_ifs at h with hcur
  rw [Option.some.inj h, Bool.and_eq_true] at hcur
  rcases hentry : s.heap e with _ | entry
  · simp [current, hentry] at hcur
  · exact ⟨entry, rfl, (current_iff hentry).mp hcur.1, by simpa [hentry] using hcur.2⟩

private theorem Ok.consume {s : SessionPreparations Id Source CommitState} (h : s.Ok) (r : ℕ) :
    (s.consume r).Ok := by
  rw [SessionPreparations.consume]
  rcases s.held r with _ | e
  · exact h
  · exact h.remove e

private theorem Ok.release {s : SessionPreparations Id Source CommitState} (h : s.Ok) (r : ℕ)
    (reusable : Bool) : (s.release r reusable).Ok := by
  rw [SessionPreparations.release]
  rcases hheld : s.held r with _ | e
  · exact h
  obtain ⟨entry, hentry, hin, -⟩ := held_eq_some hheld
  have hcur := (current_iff hentry).mpr hin
  have hold := h.entry e entry hentry
  simp only
  split_ifs with hother hgone
  · exact h
  · exact h.remove e
  · have hphase : entry.phase = .reserved := by simpa [hentry] using hother
    have hresult : entry.result.isSome = true := by
      rw [Option.isSome_iff_ne_none]
      exact fun hnone ↦ absurd (hphase.symm.trans (hold.pending hnone)) (by simp)
    rw [← modify_id ((s.modify e ({ · with reservation := none })).makeReady e) e]
    exact h.makeReady hentry (fun hne ↦ absurd (hphase.symm.trans hne) (by simp)) ⟨rfl, rfl, rfl⟩
      (fun _ ↦ ⟨rfl, rfl, rfl⟩) hcur hresult (hold.source (by simp [hphase])) rfl

section Step

variable [DecidableEq Source]

/-- **Every step keeps the pool in order.** -/
theorem Ok.step {s : SessionPreparations Id Source CommitState} (h : s.Ok)
    (a : PreparationAction Id Source CommitState) : (s.step a).Ok := by
  rcases a with id | id | ⟨e, source⟩ | e | c | c | c | ⟨c, outcome⟩ | c | r | r | ⟨r, reusable⟩ |
    id | ⟨id, expected⟩ | id
  · exact h.call id false
  · exact h.call id true
  · exact h.loaded e (some source)
  · exact h.loaded e none
  · exact h.resume c
  · rw [SessionPreparations.step]
    rcases hcall : s.calls c with _ | call
    · rw [Option.map_none, ← hcall, Function.update_eq_self]
      exact h
    · obtain ⟨entry, hentry, hok⟩ := h.calls c call hcall
      refine @Ok.withCall _ _ _ _ s h c { call with aborted := true } entry hentry hok ?_
      exact fun hst c' call' hcall' he hst' ↦ h.oneCommit c' c call' call hcall' hcall he hst' hst
  · exact h.cancelled c
  · exact h.committed c (some outcome)
  · exact h.committed c none
  · exact h.consume r
  · exact h.consume r
  · exact h.release r reusable
  all_goals
    first
    | rw [SessionPreparations.step, SessionPreparations.invalidate]
    | rw [SessionPreparations.step, SessionPreparations.discardReady]
    | rw [SessionPreparations.step, SessionPreparations.takeReady]
    rcases s.entries.get? id with _ | e
    · exact h
    simp only
  · exact h.remove e
  · split_ifs
    · exact h
    · exact h
    · exact h.remove e
  · split_ifs
    · exact h
    · exact h.remove e

theorem ok_run (capacity : ℕ) (actions : List (PreparationAction Id Source CommitState)) :
    (run capacity actions).Ok :=
  List.foldlRecOn actions _ (ok_new capacity) fun _ h a _ ↦ h.step a

end Step

end SessionPreparations

end XxAgent
