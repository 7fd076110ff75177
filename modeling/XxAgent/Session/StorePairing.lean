import XxAgent.Session.StoreLifecycle

/-!
# What listeners are told

The trace of a run, read as the listeners see it. A step appends a few observations, and a disposal
it dispatches is the last of them; so the lifecycles of the entries after the step say what had
happened when the disposal began.
-/

namespace XxAgent

/-- An observed end is one the dispatch has reached: every listener was called, or a throw ended
it, from the dispatch itself or from a listener of `session/created`. -/
def Observation.Whole : Observation → Prop
  | .ended topic _ listeners called threw =>
    if threw then listeners = none ∨ topic = .created else listeners = some called
  | _ => True

namespace Lifecycle

/-- An entry that has been entered stays, and its capability is not given out twice. -/
theorem Move.used {l l' : Lifecycle} (hm : Move l l') (hpresent : l.present = true)
    (hused : l.entered = false) : l'.present = true ∧ l'.entered = false := by
  cases hm with
  | enter hnew => exact absurd (hpresent.symm.trans hnew) nofun
  | announce | append | created | event | disposed => exact ⟨hpresent, hused⟩
  | «defer» | detach | createdLast | eventLast => exact ⟨hpresent, by simp_all [remove, unpublish]⟩

/-- An entry whose capability is used is gone, once nothing of it is under way. -/
theorem Ok.detached_of_used {l : Lifecycle} (h : l.Ok) (hpresent : l.present = true)
    (hused : l.entered = false) (hcreated : l.publishing .created = 0)
    (hevent : l.publishing .event = 0) : l.detached = 1 := by
  have hann : l.announcing = false := by simpa [hcreated] using h.created.symm
  have happ : l.appending = false := by simpa [hevent] using h.event.symm
  have hreq : l.detachRequested = false := by
    by_contra hreq
    have hbusy := (h.requested (by simpa using hreq)).2
    simp [hann, happ] at hbusy
  have hlive : l.live = false := by
    by_contra hlive
    have howner := h.capability.mp (by simpa using hlive)
    simp [hused, hreq] at howner
  rw [h.detached, hpresent, hlive]
  rfl

end Lifecycle

namespace SessionStore

variable {Id Session Event : Type*} [DecidableEq Id] [DecidableEq Session]

/-- What removing an entry, or leaving it, does to the stack and the trace. -/
inductive Removal (s s' : SessionStore Id Session Event) (e : ℕ) : Prop
  | kept : s'.stack = s.stack → s'.trace = s.trace → Removal s s' e
  | removed : s'.stack = s.stack → s'.trace = s.trace ++ [.detached e] → Removal s s' e
  | disposed : s'.stack = ⟨.disposed, e, none, none, 0⟩ :: s.stack →
      s'.trace = s.trace ++ [.detached e, .dispatched .disposed e] → Removal s s' e

theorem removal_detachEntered (s : SessionStore Id Session Event) (e : ℕ) :
    Removal s (s.detachEntered e) e := by
  rw [detachEntered]
  rcases s.entries e with _ | entry
  · exact .kept rfl rfl
  simp only
  split_ifs
  · exact .kept rfl rfl
  · refine .disposed rfl ?_
    simp [emitDisposed, publish, modify]
  · exact .removed rfl rfl

theorem removal_unwound (s : SessionStore Id Session Event) (topic : SessionTopic) (e : ℕ) :
    Removal s (s.unwound topic e) e := by
  have hmodified (f : SessionEntry Id Session → SessionEntry Id Session) :
      Removal s ((s.modify e f).detachEntered e) e := by
    obtain ⟨h₁, h₂⟩ | ⟨h₁, h₂⟩ | ⟨h₁, h₂⟩ := removal_detachEntered (s.modify e f) e
    · exact .kept h₁ h₂
    · exact .removed h₁ h₂
    · exact .disposed h₁ h₂
  rcases topic with _ | _ | _
  all_goals rw [unwound]
  · rcases ((s.modify e fun entry ↦ { entry with announcing := false }).entries e) with _ | entry
    · exact .kept rfl rfl
    · simp only
      split_ifs
      · exact hmodified _
      · exact .kept rfl rfl
  · rcases ((s.modify e fun entry ↦ { entry with appending := false }).entries e) with _ | entry
    · exact .kept rfl rfl
    · simp only
      split_ifs
      · exact hmodified _
      · exact .kept rfl rfl
  · exact .kept rfl rfl

/-- A step adds whole observations to the trace; a disposal it dispatches is the last of them. -/
structure Tells (s s' : SessionStore Id Session Event) : Prop where
  trace : ∃ new, s'.trace = s.trace ++ new ∧ (∀ o ∈ new, o.Whole) ∧
    ∀ o ∈ new.dropLast, ∀ e, o ≠ .dispatched .disposed e
  called : ∀ p ∈ s'.stack, p.called ≤ p.listeners.getD 0

theorem Tells.refl {s : SessionStore Id Session Event}
    (h : ∀ p ∈ s.stack, p.called ≤ p.listeners.getD 0) : Tells s s :=
  ⟨⟨[], by simp⟩, h⟩

/-- Only the trace before the step counts. -/
private theorem Tells.congr {s₀ s s' : SessionStore Id Session Event} (h : Tells s s')
    (htrace : s.trace = s₀.trace) : Tells s₀ s' :=
  ⟨htrace ▸ h.trace, h.called⟩

/-- A step that changes neither the stack nor the trace. -/
private theorem Tells.of_eq {s s' : SessionStore Id Session Event}
    (h : ∀ p ∈ s.stack, p.called ≤ p.listeners.getD 0) (hstack : s'.stack = s.stack)
    (htrace : s'.trace = s.trace) : Tells s s' :=
  ⟨⟨[], by simp [htrace]⟩, hstack ▸ h⟩

private theorem Tells.of_removal {s s' : SessionStore Id Session Event} {e : ℕ}
    (h : ∀ p ∈ s.stack, p.called ≤ p.listeners.getD 0) (hr : Removal s s' e) : Tells s s' := by
  obtain ⟨hstack, htrace⟩ | ⟨hstack, htrace⟩ | ⟨hstack, htrace⟩ := hr
  · exact .of_eq h hstack htrace
  · exact ⟨⟨[.detached e], by simp [htrace, Observation.Whole]⟩, hstack ▸ h⟩
  · refine ⟨⟨_, htrace, by simp [Observation.Whole], by simp⟩, ?_⟩
    rw [hstack]
    exact List.forall_mem_cons.mpr ⟨Nat.le_refl 0, h⟩

private theorem Tells.publish {s : SessionStore Id Session Event}
    (h : ∀ p ∈ s.stack, p.called ≤ p.listeners.getD 0) (topic : SessionTopic) (e : ℕ)
    (payload : Option Event) : Tells s (s.publish topic e payload) :=
  ⟨⟨[.dispatched topic e], by simp [SessionStore.publish, Observation.Whole]⟩,
    List.forall_mem_cons.mpr ⟨Nat.le_refl 0, h⟩⟩

theorem tells_finish {s : SessionStore Id Session Event} {p : Publication Event}
    {rest : List (Publication Event)} (hrest : ∀ p ∈ rest, p.called ≤ p.listeners.getD 0)
    {threw : Bool}
    (hwhole : (Observation.ended p.topic p.entry p.listeners p.called threw).Whole) :
    Tells s (s.finish p rest threw) := by
  rw [finish]
  generalize hpopped : ({ s with stack := rest, trace := _ } : SessionStore Id Session Event) = s₁
  have hstack₁ : s₁.stack = rest := by rw [← hpopped]
  have htrace₁ : s₁.trace
      = s.trace ++ [.ended p.topic p.entry p.listeners p.called threw] := by rw [← hpopped]
  obtain ⟨hstack, htrace⟩ | ⟨hstack, htrace⟩ | ⟨hstack, htrace⟩ :=
    removal_unwound s₁ p.topic p.entry
  all_goals rw [hstack₁] at hstack
  all_goals rw [htrace₁] at htrace
  · exact ⟨⟨_, htrace, by simpa using hwhole, by simp⟩, hstack ▸ hrest⟩
  · rw [List.append_assoc] at htrace
    exact ⟨⟨_, htrace, by simpa [Observation.Whole] using hwhole, by simp⟩, hstack ▸ hrest⟩
  · rw [List.append_assoc] at htrace
    refine ⟨⟨_, htrace, by simpa [Observation.Whole] using hwhole, by simp⟩, ?_⟩
    rw [hstack]
    exact List.forall_mem_cons.mpr ⟨Nat.le_refl 0, hrest⟩

theorem tells_callNext {s : SessionStore Id Session Event} {p : Publication Event}
    {rest : List (Publication Event)} (hrest : ∀ p ∈ rest, p.called ≤ p.listeners.getD 0)
    {n : ℕ} (hn : p.listeners = some n) (hcalled : p.called ≤ n) : Tells s (s.callNext p rest) := by
  rw [callNext, hn, Option.getD_some]
  split_ifs with hmore
  · refine ⟨⟨[], by simp⟩, List.forall_mem_cons.mpr ⟨?_, hrest⟩⟩
    simpa [hn] using Nat.succ_le_of_lt hmore
  · apply tells_finish hrest
    have hall : n = p.called := Nat.le_antisymm (Nat.le_of_not_lt hmore) hcalled
    simp [Observation.Whole, hn, hall]

theorem tells_step {s : SessionStore Id Session Event}
    (h : ∀ p ∈ s.stack, p.called ≤ p.listeners.getD 0) (id : Session → Id)
    (admits : List Event → Event → Bool) (a : StoreAction Session Event) :
    Tells s (s.step id admits a) := by
  rcases a with session | session | e | ⟨session, event⟩ | listeners | _ | _
  · rw [step, enter]
    split_ifs <;> exact .of_eq h rfl rfl
  · rw [step, announce]
    rcases s.liveEntryFor session with _ | ⟨e, entry⟩
    · exact .refl h
    simp only
    split_ifs
    · exact .refl h
    · exact (Tells.publish (s := s.modify e _) h .created e none).congr rfl
  · rw [step, SessionStore.detach]
    rcases s.entries e with _ | entry
    · exact .refl h
    simp only
    split_ifs
    · exact .refl h
    · exact .of_eq h rfl rfl
    · exact (Tells.of_removal (s := s.modify e _) h (removal_detachEntered _ e)).congr rfl
  · rw [step, append]
    rcases (s.attachments session).bind fun e ↦ (s.entries e).map fun entry ↦ (e, entry)
      with _ | ⟨e, entry⟩
    · simp only
      split_ifs
      · exact .of_eq h rfl rfl
      · exact .refl h
    simp only
    split_ifs
    · exact .refl h
    · exact (Tells.publish (s := s.modify e _) h .event e (some event)).congr rfl
  all_goals
    rw [step]
    rcases hstack : s.stack with _ | ⟨p, rest⟩
    · exact .refl h
    simp only
    obtain ⟨hp, hrest⟩ := List.forall_mem_cons.mp (hstack ▸ h)
  · split_ifs with hnone
    · have hzero : p.called = 0 := by simpa [Option.isNone_iff_eq_none.mp hnone] using hp
      rw [resolve]
      have hresolved (s' : SessionStore Id Session Event) (htrace : s'.trace = s.trace) :
          Tells s (s'.callNext { p with listeners := some listeners } rest) :=
        (tells_callNext hrest rfl (by simp [hzero])).congr htrace
      apply hresolved
      split <;> rfl
    · exact .refl h
  all_goals rcases hl : p.listeners with _ | n
  · exact .refl h
  · rw [if_neg (by simp)]
    exact tells_callNext hrest hl (by simpa [hl] using hp)
  · rw [if_pos (by simp)]
    exact tells_finish hrest (by simp [Observation.Whole, hl])
  · split_ifs with hcreated
    · exact tells_finish hrest (by simpa [Observation.Whole] using Or.inr hcreated)
    · exact tells_callNext hrest hl (by simpa [hl] using hp)

/-! ## Whole runs -/

/-- What holds in every state a run reaches. -/
structure Sound (s : SessionStore Id Session Event) : Prop where
  wf : s.Wf
  ok : ∀ e, (s.lifecycle e).Ok
  called : ∀ p ∈ s.stack, p.called ≤ p.listeners.getD 0
  whole : ∀ o ∈ s.trace, o.Whole
  disposal : ∀ before after e, s.trace = before ++ .dispatched .disposed e :: after →
    begun before .created e = 1 ∧ ∀ topic ≠ .disposed, begun before topic e = ended before topic e

theorem sound_new : (new : SessionStore Id Session Event).Sound where
  wf := wf_new
  ok _ := Lifecycle.ok_absent
  called := nofun
  whole := nofun
  disposal before after e h := by
    have hlength := congrArg List.length h
    simp [new] at hlength

/-- An announced entry that is no longer alive has no publication of its own under way. -/
private theorem quiet_of_disposed {l : Lifecycle} (h : l.Ok) (hdisposed : 0 < l.begun .disposed) :
    l.begun .created = 1 ∧ ∀ topic ≠ .disposed, l.begun topic = l.ended topic := by
  have hflags := h.disposed ▸ hdisposed
  have hdead : l.live = false ∧ l.announced = true := by
    by_contra hne
    grind
  have hann : l.announcing = false := by
    by_contra hbusy
    exact absurd (h.busy (.inl (by simpa using hbusy))) (by simp [hdead.1])
  have happ : l.appending = false := by
    by_contra hbusy
    exact absurd (h.busy (.inr (by simpa using hbusy))) (by simp [hdead.1])
  refine ⟨by rw [h.once, hdead.2]; rfl, fun topic htopic ↦ ?_⟩
  rw [h.balanced topic]
  rcases topic with _ | _ | _
  · rw [h.created, hann]; rfl
  · rw [h.event, happ]; rfl
  · exact absurd rfl htopic

theorem Sound.step {s : SessionStore Id Session Event} (h : s.Sound) (id : Session → Id)
    (admits : List Event → Event → Bool) (a : StoreAction Session Event) :
    (s.step id admits a).Sound := by
  have hmoves := moves_step h.wf h.ok id admits a
  obtain ⟨⟨new, htrace, hnew, hlast⟩, hcalled⟩ := tells_step h.called id admits a
  have hok : ∀ e, ((s.step id admits a).lifecycle e).Ok := by
    intro e
    rcases hmoves.lifecycle e with hsame | hmove
    · rw [hsame]
      exact h.ok e
    · exact (h.ok e).move hmove
  refine ⟨hmoves.wf, hok, hcalled, ?_, ?_⟩
  · rw [htrace]
    exact fun o ho ↦ (List.mem_append.mp ho).elim (h.whole o) (hnew o)
  · intro before after e hsplit
    rcases List.eq_nil_or_concat after with rfl | ⟨front, o, rfl⟩
    · -- The disposal is the last observation of this step or of an earlier one.
      have hstate := quiet_of_disposed (hok e) (by
        simp only [lifecycle, begun, hsplit]
        exact List.count_pos_iff.mpr (by simp))
      have hkeep : ∀ topic ≠ SessionTopic.disposed,
          begun (s.step id admits a).trace topic e = begun before topic e ∧
          ended (s.step id admits a).trace topic e = ended before topic e := by
        intro topic htopic
        rw [hsplit, begun_append, ended_append]
        simp [Observation.ends, Ne.symm htopic]
      refine ⟨(hkeep .created (by decide)).1 ▸ hstate.1, fun topic htopic ↦ ?_⟩
      rw [← (hkeep topic htopic).1, ← (hkeep topic htopic).2]
      exact hstate.2 topic htopic
    · rcases List.eq_nil_or_concat new with rfl | ⟨newFront, last, rfl⟩
      · exact h.disposal before (front ++ [o]) e (by simpa [htrace] using hsplit)
      · have hfront : s.trace ++ newFront = before ++ .dispatched .disposed e :: front := by
          have hboth := htrace.symm.trans hsplit
          simp only [List.concat_eq_append, ← List.append_assoc, ← List.cons_append] at hboth
          exact (List.append_inj' hboth rfl).1
        -- It is not among what this step adds before its last observation.
        obtain ⟨rest, hrest⟩ : ∃ rest, s.trace = before ++ .dispatched .disposed e :: rest := by
          rcases List.append_eq_append_iff.mp hfront with ⟨mid, hbefore, hmid⟩ | ⟨mid, htrace', hmid⟩
          · have hmem : Observation.dispatched .disposed e ∈ newFront := by simp [hmid]
            exact absurd rfl (hlast _ (by simpa using hmem) e)
          · rcases mid with _ | ⟨o', mid⟩
            · have hmem : Observation.dispatched .disposed e ∈ newFront := by
                rw [List.nil_append] at hmid
                simp [← hmid]
              exact absurd rfl (hlast _ (by simpa using hmem) e)
            · obtain ⟨rfl, -⟩ := List.cons.inj hmid
              exact ⟨mid, htrace'⟩
        exact h.disposal before rest e hrest

theorem sound_run (id : Session → Id) (admits : List Event → Event → Bool)
    (actions : List (StoreAction Session Event)) :
    (run id admits actions : SessionStore Id Session Event).Sound :=
  List.foldlRecOn actions _ sound_new fun _ h a _ ↦ h.step id admits a

theorem run_append (id : Session → Id) (admits : List Event → Event → Bool)
    (before after : List (StoreAction Session Event)) :
    after.foldl (SessionStore.step id admits) (run id admits before)
      = run id admits (before ++ after) := by
  rw [run, run, List.foldl_append]

/-- The use of a capability is not forgotten. -/
private theorem used_foldl (id : Session → Id) (admits : List Event → Event → Bool) {e : ℕ}
    (actions : List (StoreAction Session Event)) {s : SessionStore Id Session Event} (h : s.Sound)
    (hused : (s.lifecycle e).present = true ∧ (s.lifecycle e).entered = false) :
    ((actions.foldl (SessionStore.step id admits) s).lifecycle e).present = true ∧
      ((actions.foldl (SessionStore.step id admits) s).lifecycle e).entered = false := by
  induction actions generalizing s with
  | nil => exact hused
  | cons a actions ih =>
    apply ih (h.step id admits a)
    rcases (moves_step h.wf h.ok id admits a).lifecycle e with hsame | hmove
    · rwa [hsame]
    · exact hmove.used hused.1 hused.2

private theorem used_detach {s : SessionStore Id Session Event} (e : ℕ)
    (hentry : (s.entries e).isSome) (h : s.Sound) : ((s.detach e).lifecycle e).present = true ∧
      ((s.detach e).lifecycle e).entered = false := by
  obtain ⟨entry, hentry⟩ := Option.isSome_iff_exists.mp hentry
  rw [detach]
  simp only [hentry]
  split_ifs with hused
  · simp [lifecycle, hentry, hused]
  · simp [lifecycle, modify, hentry]
  · have hentry' : (s.modify e fun entry ↦ { entry with entered := false }).entries e
        = some { entry with entered := false } := by simp [modify, hentry]
    have hlive : s.store entry.id = some e :=
      (live_of_store hentry).mp ((h.ok e).capability.mpr (.inl (by simpa [lifecycle, hentry]
        using hused)))
    rw [lifecycle_detachEntered hentry' hlive, if_pos rfl]
    simp [Lifecycle.remove, lifecycle, modify, hentry]

/-- How one entry fares in a run, whatever its listeners call and throw. -/
structure Paired (id : Session → Id) (admits : List Event → Event → Bool)
    (actions : List (StoreAction Session Event)) (e : ℕ) : Prop where
  created : begun (run id admits actions).trace .created e ≤ 1
  disposed : begun (run id admits actions).trace .disposed e ≤ 1
  onStack : ∀ topic, begun (run id admits actions).trace topic e
    = ended (run id admits actions).trace topic e + publishing (run id admits actions).stack topic e
  /-- A disposal begins after the announcement and while no other publication is under way. -/
  disposal : ∀ before after,
    (run id admits actions).trace = before ++ .dispatched .disposed e :: after →
      begun before .created e = 1 ∧ ∀ topic ≠ .disposed, begun before topic e = ended before topic e
  /-- A publication that has ended has called all its listeners, or a throw ended it. -/
  whole : ∀ topic listeners called threw,
    .ended topic e listeners called threw ∈ (run id admits actions).trace →
      if threw then listeners = none ∨ topic = .created else listeners = some called
  gone : 0 < begun (run id admits actions).trace .disposed e →
    ∀ id', (run id admits actions).store id' ≠ some e
  detachedOnce : (run id admits actions).trace.count (.detached e) ≤ 1
  /-- A detach asked for is performed by the time the publications of the entry have ended. -/
  detached : ∀ before after, actions = before ++ .detach e :: after →
    ((run id admits before).entries e).isSome →
      publishing (run id admits actions).stack .created e = 0 →
        publishing (run id admits actions).stack .event e = 0 →
          (run id admits actions).trace.count (.detached e) = 1

/-- **Announcements and disposals are paired, in every order in which listeners reenter.** -/
theorem sessionStore_paired (id : Session → Id) (admits : List Event → Event → Bool)
    (actions : List (StoreAction Session Event)) (e : ℕ) : Paired id admits actions e := by
  have h := sound_run id admits actions
  have hok := h.ok e
  constructor
  case created => exact le_of_eq_of_le hok.once (Bool.toNat_le _)
  case disposed => exact le_of_eq_of_le hok.disposed (Bool.toNat_le _)
  case onStack => exact hok.balanced
  case disposal => exact fun before after ↦ h.disposal before after e
  case whole => exact fun topic listeners called threw ho ↦ h.whole _ ho
  case gone =>
    intro hpos id' hstore
    obtain ⟨entry, hentry, rfl⟩ := h.wf.store id' e hstore
    have hlive := (live_of_store hentry).mpr hstore
    have hzero : begun (run id admits actions).trace .disposed e = 0 := by
      have hdisposed := hok.disposed
      rw [hlive] at hdisposed
      simpa [lifecycle] using hdisposed
    exact absurd hpos (by simp [hzero])
  case detachedOnce => exact le_of_eq_of_le hok.detached (Bool.toNat_le _)
  case detached =>
    rintro before after rfl hentry hcreated hevent
    have hbefore := sound_run id admits before
    obtain ⟨hpresent, hused⟩ := used_foldl id admits after (hbefore.step id admits (.detach e))
      (used_detach e hentry hbefore)
    rw [← List.foldl_cons, run_append] at hpresent hused
    exact hok.detached_of_used hpresent hused hcreated hevent

/-- A listener of `session/created` that throws ends the publication: the detach that waited for it
is performed although a later listener has neither run nor thrown. -/
theorem thrownCreation_skips_listener :
    ¬ ∀ before after, (run (fun session : ℕ ↦ session) (fun (_ : List ℕ) _ ↦ true)
        [.enter 0, .announce 0, .resolved 2, .detach 0, .throws]).trace
          = before ++ .dispatched .disposed 0 :: after →
      ∀ topic listeners called threw, .ended topic 0 (some listeners) called threw ∈ before →
        called = listeners := by
  intro hall
  have hended := hall [.dispatched .created 0, .ended .created 0 (some 2) 1 true, .detached 0] []
    (by decide) .created 2 1 true (by decide)
  exact absurd hended (by decide)

end SessionStore

end XxAgent
