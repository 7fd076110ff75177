import XxAgent.Tokens.MeterReplay

/-!
# Meter and projections agree

On a log that the surface fold accepts, whose steps are well formed and whose replacements are all
metered, the running totals of the projections are the meter's, and both are the price of the
messages on the surface.
-/

namespace XxAgent.Tokens

open Ecma

/-! ## Totals -/

/-- A metering event does not join the surface. -/
theorem surface_of_shadowPrice {event : MeterEvent} {claim : ShadowPriceClaim}
    (h : shadowPrice event = some claim) : event.surface = none := by
  rw [MeterEvent.surface, if_neg]
  rw [shadowPrice] at h
  split at h
  case h_1 range tokens hdata =>
    rw [hdata]
    exact (by decide : "compaction/summary" ∉ SURFACE_EVENT_TYPES)
  case h_2 range tokens hdata =>
    rw [hdata]
    exact (by decide : "compaction/prune" ∉ SURFACE_EVENT_TYPES)
  case h_3 => simp at h

/-- **A projection moves by what the meter moves by**, when the claim it carries is the one that the
last event has armed. -/
theorem foldSurfaceProjection_eq {log : List MeterEvent} {event : MeterEvent}
    {replay : ReplayState} {nodes : List TokenSurfaceNode} {total : ℤ}
    (hmeter : meterAfter log = .ok replay) (hmetered : MeteredAt log event)
    (hsurface : nextSurface replay event = .ok (nodes, total)) :
    foldSurfaceProjection (log.getLast?.bind shadowPrice) event
      = .ok ⟨total - replay.surfaceTokens, shadowPrice event⟩ := by
  rw [nextSurface] at hsurface
  rw [foldSurfaceProjection]
  rcases hprice : shadowPrice event with _ | armed
  · rcases hop : event.surface with _ | _ | ⟨start, stop⟩
    · rw [hop] at hsurface
      obtain ⟨-, rfl⟩ := Prod.mk.inj (Except.ok.inj hsurface)
      simp
    · rw [hop] at hsurface
      obtain ⟨-, rfl⟩ := Prod.mk.inj (Except.ok.inj hsurface)
      simp
    · obtain ⟨metering, tokens, hlast, harmed, hrange⟩ := hmetered start stop hop
      have htokens := hrange replay hmeter
      rw [rangeTokens] at htokens
      rw [hop] at hsurface
      simp only [foldSurfaceTokens] at hsurface
      split at htokens
      case h_1 startIdx endIdx hstart hstop =>
        simp only [hstart, hstop] at hsurface
        split_ifs at hsurface with hreversed
        · simp [Except.map] at hsurface
        · obtain ⟨-, htotal⟩ := Prod.mk.inj (Except.ok.inj hsurface)
          have hclaim : log.getLast?.bind shadowPrice = some ⟨⟨start, stop⟩, tokens⟩ := by
            rw [hlast, Option.bind_some, harmed]
          simp only [hclaim, ne_eq, not_true_eq_false, if_false, ← htotal,
            Option.some.inj htokens]
          congr 2
          omega
      case h_2 => simp at htokens
  · rw [surface_of_shadowPrice hprice] at hsurface
    obtain ⟨-, rfl⟩ := Prod.mk.inj (Except.ok.inj hsurface)
    simp

theorem ContextBreakdownState.apply_eq_ok {state : ContextBreakdownState} {event : MeterEvent}
    {fold : SurfaceTokensFold} (h : foldSurfaceProjection state.claim event = .ok fold) :
    ∃ next, state.apply event = .ok next ∧
      next.messageTokens = state.messageTokens + fold.deltaTokens ∧ next.claim = fold.claim := by
  -- Whatever the envelope comes to, the state is kept only if nothing moves it.
  have hkept (systemTokens toolsTokens : ℕ) (next : ContextBreakdownState)
      (hnext : next = if systemTokens = state.systemTokens ∧ toolsTokens = state.toolsTokens ∧
          fold.deltaTokens = 0 ∧ fold.claim = none ∧ state.claim = none then state
        else ⟨systemTokens, toolsTokens, state.messageTokens + fold.deltaTokens, fold.claim⟩) :
      next.messageTokens = state.messageTokens + fold.deltaTokens ∧ next.claim = fold.claim := by
    subst hnext
    split_ifs with hsame
    · obtain ⟨-, -, hdelta, hfold, hclaim⟩ := hsame
      exact ⟨by rw [hdelta, Int.add_zero], by rw [hclaim, hfold]⟩
    · exact ⟨rfl, rfl⟩
  rw [apply, h]
  exact ⟨_, rfl, hkept _ _ _ rfl⟩

theorem ContextPressureState.surfaceTokens_sampled (state : ContextPressureState)
    (event : MeterEvent) :
    ((state.withWindow event).withSample event).surfaceTokens = state.surfaceTokens := by
  rw [withSample, withWindow]
  split
  · split
    · rfl
    · rfl
  · split
    · rfl
    · rfl

theorem ContextPressureState.apply_eq_ok {state : ContextPressureState} {event : MeterEvent}
    {fold : SurfaceTokensFold} (h : foldSurfaceProjection state.claim event = .ok fold) :
    ∃ next, state.apply event = .ok next ∧
      next.surfaceTokens = state.surfaceTokens + fold.deltaTokens ∧ next.claim = fold.claim := by
  rw [apply, h]
  refine ⟨_, rfl, ?_, rfl⟩
  simp only [surfaceTokens_sampled]

theorem project_concat {σ : Type} (apply : σ → MeterEvent → Except MeterFault σ) (init : σ)
    (log : List MeterEvent) (event : MeterEvent) :
    project apply init (log ++ [event])
      = (project apply init log).bind fun state ↦ apply state event := by
  rw [project, project, List.foldlM_append]
  rcases List.foldlM apply init log with fault | state
  · rfl
  · simp only [List.foldlM_cons, List.foldlM_nil, bind_pure]
    rfl

/-! ## Whole logs -/

/-- Everything that holds after an accepted log. -/
structure LogInv (log : List MeterEvent) (state : SurfaceFoldState) (replay : ReplayState)
    (breakdown : ContextBreakdownState) (pressure : ContextPressureState) : Prop where
  meter : meterAfter log = .ok replay
  inv : MeterInv log state replay
  projected : project ContextBreakdownState.apply .init log = .ok breakdown
  messageTokens : breakdown.messageTokens = replay.surfaceTokens
  breakdownClaim : breakdown.claim = log.getLast?.bind shadowPrice
  occupied : project ContextPressureState.apply .init log = .ok pressure
  surfaceTokens : pressure.surfaceTokens = replay.surfaceTokens
  pressureClaim : pressure.claim = log.getLast?.bind shadowPrice

theorem logInv_nil :
    LogInv [] createFoldState .initial ContextBreakdownState.init ContextPressureState.init where
  meter := rfl
  inv := ⟨rfl, by simp [ReplayState.initial], rfl, rfl, rfl⟩
  projected := rfl
  messageTokens := rfl
  breakdownClaim := rfl
  occupied := rfl
  surfaceTokens := rfl
  pressureClaim := rfl

/-- One more accepted event. -/
theorem LogInv.concat {log : List MeterEvent} {state : SurfaceFoldState} {replay : ReplayState}
    {breakdown : ContextBreakdownState} {pressure : ContextPressureState}
    (h : LogInv log state replay breakdown pressure) {event : MeterEvent}
    {plan : Option SurfacePlan}
    (hplan : planNext state (log.map (·.json)) event.json = .ok plan)
    (hfits : FitsSteps log event) (hmetered : MeteredAt log event) :
    ∃ replay' breakdown' pressure',
      LogInv (log ++ [event]) (commitPlan state plan) replay' breakdown' pressure' := by
  have hseq : event.seq = log.length := by
    rw [(plan_of_accepted hplan).1, List.length_map]
  obtain ⟨stepStart, hstep, hopen⟩ := h.inv.nextStepStart hfits
  obtain ⟨anchor, hanchor⟩ := h.inv.nextAnchor hseq hfits
  obtain ⟨nodes, total, hsurface, hseqs, hprices, htotal⟩ := h.inv.nextSurface hplan
  have hfold := foldSurfaceProjection_eq h.meter hmetered hsurface
  obtain ⟨breakdown', hbreakdown, hmessage, hclaim⟩ :=
    ContextBreakdownState.apply_eq_ok (h.breakdownClaim ▸ hfold)
  obtain ⟨pressure', hpressure, hsurfaceTokens, hclaim'⟩ :=
    ContextPressureState.apply_eq_ok (h.pressureClaim ▸ hfold)
  refine ⟨⟨nextHeader replay event, nodes, total, stepStart, anchor⟩, breakdown', pressure', ?_⟩
  have hlast : (log ++ [event]).getLast?.bind shadowPrice = shadowPrice event := by
    rw [List.getLast?_concat, Option.bind_some]
  constructor
  · rw [meterAfter_concat, h.meter]
    exact foldEvent_eq_ok hstep hsurface hanchor
  · exact ⟨hseqs, hprices, htotal, hopen, h.inv.nextHeader⟩
  · rw [project_concat, h.projected]
    exact hbreakdown
  · rw [hmessage, h.messageTokens]
    simp only
    omega
  · rw [hclaim, hlast]
  · rw [project_concat, h.occupied]
    exact hpressure
  · rw [hsurfaceTokens, h.surfaceTokens]
    simp only
    omega
  · rw [hclaim', hlast]

/-- **Agreement after every log**: what the surface fold accepts, the meter and the projections
accept, with one total. -/
theorem exists_logInv {log : List MeterEvent} (hsteps : WellStepped log) (hmetered : Metered log) :
    ∀ {state : SurfaceFoldState}, surfaceAfter (log.map (·.json)) = .ok state →
      ∃ replay breakdown pressure, LogInv log state replay breakdown pressure := by
  induction log using List.reverseRecOn with
  | nil =>
    intro state haccepted
    rw [List.map_nil, surfaceAfter, Replay.replay_nil] at haccepted
    rw [← Except.ok.inj haccepted]
    exact ⟨_, _, _, logInv_nil⟩
  | append_singleton log event ih =>
    intro state haccepted
    rw [List.map_append, List.map_singleton, surfaceAfter, Replay.replay_concat] at haccepted
    obtain ⟨before, hbefore, htake⟩ := Replay.bind_eq_ok.mp haccepted
    obtain ⟨plan, hplan, rfl⟩ := Replay.map_eq_ok.mp htake
    obtain ⟨replay, breakdown, pressure, hinv⟩ := ih hsteps.front hmetered.front hbefore
    exact hinv.concat hplan (hsteps log event [] rfl) (hmetered log event [] rfl)

/-- The nodes carry the prices of the messages that they derive. -/
theorem nodeTokens_eq_surfacePrice {log : List MeterEvent} {nodes : List TokenSurfaceNode}
    (hprices : ∀ node ∈ nodes, ∃ event, log[node.seq]? = some event ∧
      node.tokens = eventTokens event) :
    nodeTokens nodes = surfacePrice log (nodes.map (·.seq)) := by
  induction nodes with
  | nil => rfl
  | cons node nodes ih =>
    obtain ⟨event, hevent, hprice⟩ := hprices node List.mem_cons_self
    have hrest := ih fun other hother ↦ hprices other (List.mem_cons_of_mem _ hother)
    have hcons : nodeTokens (node :: nodes) = eventTokens event + nodeTokens nodes := by
      rw [← hprice]
      rfl
    rw [hcons, hrest, surfacePrice, surfacePrice, deriveMessages, deriveMessages, List.map_cons,
      List.filterMap_cons, hevent, Option.bind_some, eventTokens]
    rcases deriveEventMessage event with _ | message
    · exact Nat.zero_add _
    · rfl

/-! ## Reading the meter -/

/-- Where sources are looked up, a longer log shows the same. -/
theorem assembleSources_append (log back : List MeterEvent) (turn step : ℕ) (sources : List ℕ) :
    ∀ (seen : List ℕ) (a : BlockAssembler),
      assembleSources (log ++ back) log.length turn step sources seen a
        = assembleSources log log.length turn step sources seen a := by
  induction sources with
  | nil => exact fun _ _ ↦ rfl
  | cons source sources ih =>
    intro seen a
    rw [assembleSources, assembleSources]
    by_cases hlt : log.length ≤ source
    · rw [if_pos hlt, if_pos hlt]
    · rw [if_neg hlt, if_neg hlt, List.getElem?_append_left (Nat.lt_of_not_le hlt)]
      simp only [ih]

theorem foldEvent_append {log : List MeterEvent} {event : MeterEvent}
    (hseq : event.seq = log.length) (back : List MeterEvent) (replay : ReplayState) :
    foldEvent (log ++ back) replay event = foldEvent log replay event := by
  have hprovider (turn step : ℕ) :
      estimateProviderAssistant (log ++ back) event turn step
        = estimateProviderAssistant log event turn step := by
    unfold estimateProviderAssistant
    simp only [hseq, assembleSources_append]
  unfold foldEvent nextAnchor anchorOf
  simp only [hprovider]

/-- The events of a log carry their positions. -/
def Numbered (log : List MeterEvent) : Prop :=
  ∀ front event back, log = front ++ event :: back → event.seq = front.length

/-- Catching up over the rest of a log leads to the state after the log. -/
theorem syncLoop_eq {rest : List MeterEvent} :
    ∀ {front : List MeterEvent} {replay final : ReplayState}, Numbered (front ++ rest) →
      meterAfter front = .ok replay → meterAfter (front ++ rest) = .ok final →
      syncLoop (front ++ rest) ⟨front.length, replay⟩ rest
        = (⟨(front ++ rest).length, final⟩, none) := by
  induction rest with
  | nil =>
    intro front replay final _ hreplay hfinal
    rw [List.append_nil] at hfinal ⊢
    rw [hreplay] at hfinal
    rw [syncLoop, Except.ok.inj hfinal]
  | cons event rest ih =>
    intro front replay final hnumbered hreplay hfinal
    have hlog : front ++ event :: rest = (front ++ [event]) ++ rest := by simp
    have hseq := hnumbered front event rest rfl
    rw [hlog] at hfinal
    obtain ⟨next, hnext⟩ := Replay.exists_replay_of_append hfinal
    have hevent := hnext
    change meterAfter (front ++ [event]) = .ok next at hevent
    rw [meterAfter_concat, hreplay] at hevent
    have hfold : foldEvent (front ++ event :: rest) replay event = .ok next := by
      rw [foldEvent_append hseq]
      exact hevent
    rw [syncLoop, hfold]
    simp only
    rw [hlog] at hnumbered ⊢
    have hstep := ih hnumbered hnext hfinal
    rw [List.length_append, List.length_singleton] at hstep
    exact hstep

/-- A session, and what the meter keeps of it. -/
structure MeteredSession where
  log : List MeterEvent
  meter : Option MeterState

inductive MeterAction where
  | append (event : MeterEvent)
  | measure (requestHeader : Option EpochHeader)

namespace MeteredSession

/-- `measure` -/
def measure (s : MeteredSession) (requestHeader : Option EpochHeader) :
    Except MeterFault TokenMeasurement :=
  match sync s.log s.meter with
  | (state, none) => .ok (measurement state requestHeader)
  | (_, some fault) => .error fault

/-- An append is observed once the session has been read; a read catches up. -/
def act (s : MeteredSession) : MeterAction → MeteredSession
  | .append event =>
    let log := s.log ++ [event]
    ⟨log, s.meter.map fun state ↦ (sync log (some state)).1⟩
  | .measure _ => { s with meter := some (sync s.log s.meter).1 }

def run (s : MeteredSession) (actions : List MeterAction) : MeteredSession :=
  actions.foldl act s

/-- What the meter keeps is the state after what it has consumed. -/
def Kept (s : MeteredSession) : Prop :=
  ∀ state ∈ s.meter, state.consumedEvents ≤ s.log.length ∧
    meterAfter (s.log.take state.consumedEvents) = .ok state.replay

theorem Kept.sync {s : MeteredSession} (h : s.Kept) (hnumbered : Numbered s.log)
    {final : ReplayState} (hfinal : meterAfter s.log = .ok final) :
    Tokens.sync s.log s.meter = (⟨s.log.length, final⟩, none) := by
  rcases hmeter : s.meter with _ | state
  · have hempty : meterAfter [] = .ok .initial := rfl
    have hwhole : Numbered ([] ++ s.log) := hnumbered
    exact syncLoop_eq hwhole hempty hfinal
  · obtain ⟨hle, hreplay⟩ := h state hmeter
    have hsplit := List.take_append_drop state.consumedEvents s.log
    have hlength : (s.log.take state.consumedEvents).length = state.consumedEvents := by
      rw [List.length_take, Nat.min_eq_left hle]
    rw [← hsplit] at hnumbered hfinal
    have hloop := syncLoop_eq hnumbered hreplay hfinal
    rw [hsplit, hlength] at hloop
    exact hloop

/-- The meter agrees with the projections and with the messages on the surface. -/
def Agrees (s : MeteredSession) : Prop :=
  ∀ requestHeader, ∃ fold measured breakdown pressure,
    foldSurface (s.log.map (·.json)) = .ok fold ∧
    s.measure requestHeader = .ok measured ∧
    project ContextBreakdownState.apply .init s.log = .ok breakdown ∧
    project ContextPressureState.apply .init s.log = .ok pressure ∧
    breakdown.messageTokens = measured.surfaceTokens ∧
    pressure.surfaceTokens = measured.surfaceTokens ∧
    measured.surfaceTokens = surfacePrice s.log fold.nodes

/-- The surface fold accepts the log. -/
def Accepted (s : MeteredSession) : Prop := ∃ fold, foldSurface (s.log.map (·.json)) = .ok fold

end MeteredSession

/-! ## Runs -/

theorem json_append (log : List MeterEvent) (event : MeterEvent) :
    (log ++ [event]).map (·.json) = log.map (·.json) ++ [event.json] := by
  rw [List.map_append, List.map_singleton]

/-- The surface fold has checked the positions. -/
theorem numbered_of_accepted {log : List MeterEvent} :
    ∀ {state : SurfaceFoldState}, surfaceAfter (log.map (·.json)) = .ok state → Numbered log := by
  induction log using List.reverseRecOn with
  | nil =>
    intro state _ front event back hlog
    simp at hlog
  | append_singleton log last ih =>
    intro state haccepted front event back hlog
    rw [json_append, surfaceAfter, Replay.replay_concat] at haccepted
    obtain ⟨before, hbefore, htake⟩ := Replay.bind_eq_ok.mp haccepted
    obtain ⟨plan, hplan, -⟩ := Replay.map_eq_ok.mp htake
    rcases List.eq_nil_or_concat' back with rfl | ⟨back, other, rfl⟩
    · obtain ⟨rfl, hevent⟩ := List.append_inj' hlog rfl
      rw [← (List.cons.inj hevent).1, (plan_of_accepted hplan).1, List.length_map]
    · have hfront : log = front ++ event :: back := by
        have hassoc : log ++ [last] = (front ++ event :: back) ++ [other] := by
          rw [hlog]
          simp
        exact (List.append_inj' hassoc rfl).1
      exact ih hbefore front event back hfront

namespace MeteredSession

variable {s : MeteredSession}

theorem Accepted.surface (h : s.Accepted) :
    ∃ fold, foldSurface (s.log.map (·.json)) = .ok fold ∧
      surfaceAfter (s.log.map (·.json)) = .ok fold.state := by
  obtain ⟨fold, hfold⟩ := h
  exact ⟨fold, hfold, by rw [← foldSurface_eq, hfold]; rfl⟩

/-- The log of a run goes on from the log it started with. -/
theorem log_run (s : MeteredSession) (actions : List MeterAction) :
    ∃ back, (s.run actions).log = s.log ++ back := by
  induction actions generalizing s with
  | nil => exact ⟨[], by simp [run]⟩
  | cons action actions ih =>
    obtain ⟨back, hback⟩ := ih (s.act action)
    rcases action with event | requestHeader
    · exact ⟨event :: back, by rw [run, List.foldl_cons, ← run, hback]; simp [act]⟩
    · exact ⟨back, hback⟩

/-- What was accepted was accepted all along. -/
theorem Accepted.front {front : MeteredSession} {back : List MeterEvent} (h : s.Accepted)
    (hlog : s.log = front.log ++ back) : front.Accepted := by
  obtain ⟨fold, -, hsurface⟩ := h.surface
  rw [hlog, List.map_append] at hsurface
  obtain ⟨state, hstate⟩ := Replay.exists_replay_of_append hsurface
  have hfold := foldSurface_eq (front.log.map (·.json))
  change _ = surfaceAfter _ at hfold
  rw [show surfaceAfter (front.log.map (·.json)) = .ok state from hstate] at hfold
  obtain ⟨result, hresult, -⟩ := Replay.map_eq_ok.mp hfold
  exact ⟨result, hresult⟩

/-- One action keeps what the meter keeps. -/
theorem Kept.act (h : s.Kept) (action : MeterAction) (haccepted : (s.act action).Accepted)
    (hsteps : WellStepped (s.act action).log) (hmetered : Metered (s.act action).log) :
    (s.act action).Kept := by
  obtain ⟨fold, -, hsurface⟩ := haccepted.surface
  obtain ⟨final, _, _, hinv⟩ := exists_logInv hsteps hmetered hsurface
  have hnumbered := numbered_of_accepted hsurface
  have hfinal := hinv.meter
  have hkept (s' : MeteredSession) (hlog : s'.log = (s.act action).log) (hs' : s'.Kept)
      (state : MeterState) (hstate : state = (Tokens.sync s'.log s'.meter).1) :
      state.consumedEvents ≤ (s.act action).log.length ∧
        meterAfter ((s.act action).log.take state.consumedEvents) = .ok state.replay := by
    have hsync := hs'.sync (hlog ▸ hnumbered) (hlog ▸ hfinal)
    rw [hstate, hsync, hlog]
    exact ⟨Nat.le_refl _, by rw [List.take_length, hfinal]⟩
  rcases action with event | requestHeader
  · intro state hstate
    obtain ⟨old, hold, rfl⟩ := Option.map_eq_some_iff.mp hstate
    apply hkept ⟨s.log ++ [event], some old⟩ rfl ?_ _ rfl
    intro kept hkept'
    obtain rfl := Option.some.inj hkept'
    obtain ⟨hle, hreplay⟩ := h old hold
    refine ⟨?_, ?_⟩
    · rw [List.length_append]
      omega
    · rw [List.take_append_of_le_length hle, hreplay]
  · intro state hstate
    exact hkept s rfl h state (Option.some.inj hstate).symm

theorem Kept.agrees (h : s.Kept) (haccepted : s.Accepted) (hsteps : WellStepped s.log)
    (hmetered : Metered s.log) : s.Agrees := by
  intro requestHeader
  obtain ⟨fold, hfold, hsurface⟩ := haccepted.surface
  obtain ⟨final, breakdown, pressure, hinv⟩ := exists_logInv hsteps hmetered hsurface
  have hsync := h.sync (numbered_of_accepted hsurface) hinv.meter
  refine ⟨fold, measurement ⟨s.log.length, final⟩ requestHeader, breakdown, pressure, hfold, ?_,
    hinv.projected, hinv.occupied, hinv.messageTokens, hinv.surfaceTokens, ?_⟩
  · rw [measure, hsync]
  · have hnodes : final.surface.map (·.seq) = fold.nodes := hinv.inv.seqs
    rw [← hnodes, ← nodeTokens_eq_surfacePrice hinv.inv.prices]
    exact hinv.inv.total

theorem Kept.run (h : s.Kept) {actions : List MeterAction} (haccepted : (s.run actions).Accepted)
    (hsteps : WellStepped (s.run actions).log) (hmetered : Metered (s.run actions).log) :
    (s.run actions).Kept := by
  induction actions generalizing s with
  | nil => exact h
  | cons action actions ih =>
    obtain ⟨back, hlog⟩ := log_run (s.act action) actions
    have hrun : (s.run (action :: actions)).log = (s.act action).log ++ back := hlog
    rw [hrun] at hsteps hmetered
    exact ih (h.act action (haccepted.front hrun) hsteps.front hmetered.front) haccepted
      (by rw [hlog]; exact hsteps) (by rw [hlog]; exact hmetered)

/-- **Bounded projections agree with the meter** at every moment of a run, whatever was read before,
when the log of the run is accepted, well stepped and metered. -/
theorem agrees_run (seed : List MeterEvent) (actions : List MeterAction)
    (haccepted : (run ⟨seed, none⟩ actions).Accepted)
    (hsteps : WellStepped (run ⟨seed, none⟩ actions).log)
    (hmetered : Metered (run ⟨seed, none⟩ actions).log) :
    ∀ front back, actions = front ++ back → (run ⟨seed, none⟩ front).Agrees := by
  rintro front back rfl
  have hstart : Kept ⟨seed, none⟩ := by
    intro state hstate
    simp at hstate
  have happend : run ⟨seed, none⟩ (front ++ back) = (run ⟨seed, none⟩ front).run back := by
    rw [run, run, run, List.foldl_append]
  obtain ⟨rest, hlog⟩ := log_run (run ⟨seed, none⟩ front) back
  rw [happend] at haccepted hsteps hmetered
  have hfront := haccepted.front hlog
  rw [hlog] at hsteps hmetered
  exact (hstart.run hfront hsteps.front hmetered.front).agrees hfront hsteps.front hmetered.front

end MeteredSession

/-! ## A replaced message, and a step that is opened twice -/

theorem WellStepped.concat {log : List MeterEvent} {event : MeterEvent} (h : WellStepped log)
    (hevent : FitsSteps log event) : WellStepped (log ++ [event]) := by
  intro front other back hlog
  rcases List.eq_nil_or_concat' back with rfl | ⟨back, last, rfl⟩
  · obtain ⟨rfl, hsame⟩ := List.append_inj' hlog rfl
    rwa [← (List.cons.inj hsame).1]
  · have hassoc : log ++ [event] = (front ++ other :: back) ++ [last] := by
      rw [hlog]
      simp
    exact h front other back (List.append_inj' hassoc rfl).1

theorem Metered.concat {log : List MeterEvent} {event : MeterEvent} (h : Metered log)
    (hevent : MeteredAt log event) : Metered (log ++ [event]) := by
  intro front other back hlog
  rcases List.eq_nil_or_concat' back with rfl | ⟨back, last, rfl⟩
  · obtain ⟨rfl, hsame⟩ := List.append_inj' hlog rfl
    rwa [← (List.cons.inj hsame).1]
  · have hassoc : log ++ [event] = (front ++ other :: back) ++ [last] := by
      rw [hlog]
      simp
    exact h front other back (List.append_inj' hassoc rfl).1

theorem wellStepped_nil : WellStepped [] := by
  intro front event back hlog
  simp at hlog

theorem metered_nil : Metered [] := by
  intro front event back hlog
  simp at hlog

/-- What an event that replaces nothing has to announce. -/
theorem meteredAt_of_surface {log : List MeterEvent} {event : MeterEvent}
    (h : ∀ start stop, event.surface ≠ some (.replace start stop)) : MeteredAt log event :=
  fun start stop hop ↦ absurd hop (h start stop)

/-- The properties that every stored event has. -/
def storedEvent (type : String) (seq : ℕ) (rest : Fields) : Json :=
  .obj (prop "type" (text type) :: prop "seq" (integer seq) :: rest)

/-- A prompt. -/
def prompt : MeterEvent where
  json := storedEvent "user/message" 0 [prop "surfaceOp" (text "append")]
  seq := 0
  data := .userMessage ⟨[.text (js "list the files")]⟩
  surfaceOp := some .append
  sourceEventSeqs := none
  json_type := rfl
  json_seq := rfl
  json_surfaceOp := rfl

/-- The metering event of its replacement. -/
def pruning : MeterEvent where
  json := storedEvent "compaction/prune" 1 []
  seq := 1
  data := .compactionPrune ⟨0, 0⟩ 12
  surfaceOp := none
  sourceEventSeqs := none
  json_type := rfl
  json_seq := rfl
  json_surfaceOp := rfl

/-- Its replacement. -/
def pruned : MeterEvent where
  json := storedEvent "user/message" 2 [prop "surfaceOp" (surfaceOpJson (.replace 0 0)),
    prop "sourceEventSeqs" (.arr [integer 0])]
  seq := 2
  data := .userMessage ⟨[.text (js "list")]⟩
  surfaceOp := some (.replace 0 0)
  sourceEventSeqs := some [0]
  json_type := rfl
  json_seq := rfl
  json_surfaceOp := rfl

theorem wellStepped_pruned : WellStepped [prompt, pruning, pruned] := by
  have hprompt : FitsSteps [] prompt := trivial
  have hpruning : FitsSteps [prompt] pruning := trivial
  have hpruned : FitsSteps [prompt, pruning] pruned := trivial
  exact ((wellStepped_nil.concat hprompt).concat hpruning).concat hpruned

theorem metered_pruned : Metered [prompt, pruning, pruned] := by
  have hprompt : MeteredAt [] prompt := meteredAt_of_surface (by
    intro start stop
    have hsurface : prompt.surface = some .append := rfl
    simp [hsurface])
  have hpruning : MeteredAt [prompt] pruning := meteredAt_of_surface (by
    intro start stop
    have hsurface : pruning.surface = none := rfl
    simp [hsurface])
  have hpruned : MeteredAt [prompt, pruning] pruned := by
    intro start stop hop
    have hsurface : pruned.surface = some (.replace 0 0) := rfl
    rw [hsurface] at hop
    obtain ⟨rfl, rfl⟩ : 0 = start ∧ 0 = stop := by simpa using hop
    refine ⟨pruning, 12, rfl, rfl, fun state hstate ↦ ?_⟩
    obtain ⟨found, hfound, hrange⟩ : ∃ found, meterAfter [prompt, pruning] = .ok found ∧
        rangeTokens found.surface ⟨0, 0⟩ = some 12 := ⟨_, rfl, rfl⟩
    rw [← Except.ok.inj (hfound.symm.trans hstate)]
    exact hrange
  exact ((metered_nil.concat hprompt).concat hpruning).concat hpruned

/-- A read in between does not matter. -/
theorem agrees_run_pruned :
    (MeteredSession.run ⟨[prompt], none⟩
      [MeterAction.append pruning, .measure none, .append pruned]).Agrees :=
  MeteredSession.agrees_run [prompt] [.append pruning, .measure none, .append pruned] ⟨_, rfl⟩
    wellStepped_pruned metered_pruned [.append pruning, .measure none, .append pruned] []
    (List.append_nil _).symm

/-- A step that is opened. -/
def opened (seq : ℕ) : MeterEvent where
  json := storedEvent "step/start" seq []
  seq := seq
  data := .stepStart 1 1
  surfaceOp := none
  sourceEventSeqs := none
  json_type := rfl
  json_seq := rfl
  json_surfaceOp := rfl

/-- The surface fold does not look at steps, and the meter refuses the second one. -/
theorem not_agrees_opened : ¬ ∀ (seed : List MeterEvent) (actions : List MeterAction),
    (MeteredSession.run ⟨seed, none⟩ actions).Accepted →
      Metered (MeteredSession.run ⟨seed, none⟩ actions).log → ∀ front back,
        actions = front ++ back → (MeteredSession.run ⟨seed, none⟩ front).Agrees := by
  intro hall
  have hnone (log : List MeterEvent) (seq : ℕ) : MeteredAt log (opened seq) :=
    meteredAt_of_surface (by
      intro start stop
      have hsurface : (opened seq).surface = none := rfl
      simp [hsurface])
  have hmetered : Metered [opened 0, opened 1] :=
    (metered_nil.concat (hnone [] 0)).concat (hnone [opened 0] 1)
  obtain ⟨_, measured, _, _, -, hmeasure, -⟩ :=
    hall [opened 0, opened 1] [] ⟨_, rfl⟩ hmetered [] [] rfl none
  have hrefused : MeteredSession.measure ⟨[opened 0, opened 1], none⟩ none = .error (.stepOpen 1) :=
    rfl
  rw [MeteredSession.run, List.foldl_nil, hrefused] at hmeasure
  simp at hmeasure

/-!
## The price of the surface

The price of the messages on the surface of a log, and how an event that the surface fold accepts
moves it.
-/

/-- The nodes of the surface after a log. -/
def surfaceNodes (log : List MeterEvent) : List ℕ :=
  match surfaceAfter (log.map (·.json)) with
  | .ok state => state.nodes
  | .error _ => []

/-- The price of the range that a replacement shadows. -/
def shadowedPrice (log : List MeterEvent) (start stop : ℕ) : ℕ :=
  match replacementRange ⟨surfaceNodes log, 0⟩ start stop with
  | .ok (_, _, shadowed) => surfacePrice log shadowed
  | .error _ => 0

/-! ## Prices of nodes -/

/-- The price of a node. -/
def priceAt (log : List MeterEvent) (seq : ℕ) : ℕ := log[seq]?.elim 0 eventTokens

theorem surfacePrice_cons (log : List MeterEvent) (seq : ℕ) (nodes : List ℕ) :
    surfacePrice log (seq :: nodes) = priceAt log seq + surfacePrice log nodes := by
  rw [surfacePrice, surfacePrice, deriveMessages, deriveMessages, priceAt, List.filterMap_cons]
  rcases log[seq]? with _ | event
  · exact (Nat.zero_add _).symm
  · rw [Option.bind_some, Option.elim_some, eventTokens]
    rcases deriveEventMessage event with _ | message
    · exact (Nat.zero_add _).symm
    · rfl

theorem surfacePrice_append (log : List MeterEvent) (nodes nodes' : List ℕ) :
    surfacePrice log (nodes ++ nodes') = surfacePrice log nodes + surfacePrice log nodes' := by
  rw [surfacePrice, surfacePrice, surfacePrice, deriveMessages, List.filterMap_append,
    List.map_append, List.sum_append]
  rfl

/-- What stands earlier keeps its price when the log grows. -/
theorem surfacePrice_concat {log : List MeterEvent} (event : MeterEvent) {nodes : List ℕ}
    (h : ∀ seq ∈ nodes, seq < log.length) :
    surfacePrice (log ++ [event]) nodes = surfacePrice log nodes := by
  induction nodes with
  | nil => rfl
  | cons seq nodes ih =>
    have hrest := ih fun other hother ↦ h other (List.mem_cons_of_mem _ hother)
    rw [surfacePrice_cons, surfacePrice_cons, hrest, priceAt, priceAt,
      List.getElem?_append_left (h seq List.mem_cons_self)]

theorem priceAt_concat (log : List MeterEvent) (event : MeterEvent) :
    priceAt (log ++ [event]) log.length = eventTokens event := by
  rw [priceAt, List.getElem?_concat_length, Option.elim_some]

/-- A range that is cut out takes its price along. -/
theorem surfacePrice_range (log : List MeterEvent) (nodes : List ℕ) {startIdx endIdx : ℕ}
    (h : startIdx ≤ endIdx) :
    surfacePrice log (nodes.take startIdx)
        + surfacePrice log ((nodes.drop startIdx).take (endIdx + 1 - startIdx))
        + surfacePrice log (nodes.drop (endIdx + 1)) = surfacePrice log nodes := by
  have hdrop : nodes.drop (endIdx + 1) = (nodes.drop startIdx).drop (endIdx + 1 - startIdx) := by
    rw [List.drop_drop]
    congr 1
    omega
  rw [hdrop, ← surfacePrice_append, ← surfacePrice_append, List.append_assoc,
    List.take_append_drop, List.take_append_drop]

theorem surfaceNodes_eq {log : List MeterEvent} {state : SurfaceFoldState}
    (h : surfaceAfter (log.map (·.json)) = .ok state) : surfaceNodes log = state.nodes := by
  rw [surfaceNodes, h]

/-! ## One event -/

/-- The price of the surface after an event that the surface fold accepts. -/
theorem surfacePrice_commitPlan {log : List MeterEvent} {state : SurfaceFoldState}
    {event : MeterEvent} {plan : Option SurfacePlan}
    (hafter : surfaceAfter (log.map (·.json)) = .ok state)
    (hplan : planNext state (log.map (·.json)) event.json = .ok plan) :
    (surfacePrice (log ++ [event]) (commitPlan state plan).nodes : ℤ)
      = surfacePrice log state.nodes + match event.surface with
        | none => 0
        | some .append => (eventTokens event : ℤ)
        | some (.replace start stop) => (eventTokens event : ℤ) - shadowedPrice log start stop := by
  have hbelow : ∀ seq ∈ state.nodes, seq < log.length := by
    have hstate := below_surfaceAfter hafter
    rwa [List.length_map] at hstate
  obtain ⟨hseq, hcases⟩ := plan_of_accepted hplan
  rw [List.length_map] at hseq
  rcases hcases with ⟨hop, rfl⟩ | ⟨hop, rfl⟩ |
    ⟨start, stop, startIdx, endIdx, shadowed, hop, hrange, rfl⟩
  · rw [hop]
    change ((surfacePrice (log ++ [event]) state.nodes : ℕ) : ℤ) = _
    rw [surfacePrice_concat event hbelow, Int.add_zero]
  · rw [hop]
    change ((surfacePrice (log ++ [event]) (state.nodes ++ [event.seq]) : ℕ) : ℤ) = _
    rw [surfacePrice_append, surfacePrice_concat event hbelow, surfacePrice_cons, hseq,
      priceAt_concat]
    rfl
  · have hshadowed : shadowedPrice log start stop = surfacePrice log shadowed := by
      have hfound : replacementRange ⟨state.nodes, 0⟩ start stop
          = .ok (startIdx, endIdx, shadowed) := hrange
      rw [shadowedPrice, surfaceNodes_eq hafter, hfound]
    rw [replacementRange] at hrange
    split at hrange
    case h_1 => simp at hrange
    case h_2 => simp at hrange
    case h_3 i j hi hj =>
      split_ifs at hrange with hreversed
      obtain ⟨rfl, hpair⟩ := Prod.mk.inj (Except.ok.inj hrange)
      obtain ⟨rfl, rfl⟩ := Prod.mk.inj hpair
      have hcut := surfacePrice_range log state.nodes (Nat.le_of_not_lt hreversed)
      have htake := surfacePrice_concat event
        fun seq hmem ↦ hbelow seq (List.mem_of_mem_take (i := i) hmem)
      have hdrop := surfacePrice_concat event
        fun seq hmem ↦ hbelow seq (List.mem_of_mem_drop (i := j + 1) hmem)
      rw [hop]
      change ((surfacePrice (log ++ [event])
        (state.nodes.take i ++ event.seq :: state.nodes.drop (j + 1)) : ℕ) : ℤ) = _
      rw [surfacePrice_append, surfacePrice_cons, htake, hdrop, hseq, priceAt_concat]
      simp only [hshadowed]
      omega

end XxAgent.Tokens
