import XxAgent.Log.Splits
import XxAgent.Tokens.Agreement

/-!
# Drift of the projections

A replacement that was not metered leaves the running total where it was. The price of the surface
grows or shrinks behind the total's back, and only one of the views clamps the total when a later,
metered replacement takes away more than was ever added. The units serve every read exactly as long
as the growth that the total has missed never exceeds the price of the surface.
-/

namespace XxAgent.Tokens

open Ecma

/-! ## What the total misses -/

/-- The claim that is armed after a log. -/
def armedClaim (log : List MeterEvent) : Option ShadowPriceClaim := log.getLast?.bind shadowPrice

/-- What an event adds to the price of the surface, and not to a running total. -/
def hiddenAt (log : List MeterEvent) (event : MeterEvent) : ℤ :=
  match event.surface, armedClaim log with
  | some (.replace start stop), none => (eventTokens event : ℤ) - shadowedPrice log start stop
  | some (.replace start stop), some claim => (claim.tokens : ℤ) - shadowedPrice log start stop
  | _, _ => 0

/-- `hiddenGrowth`, over the events from the last to the first. -/
def hiddenBack : List MeterEvent → ℤ
  | [] => 0
  | event :: earlier => hiddenBack earlier + hiddenAt earlier.reverse event

/-- The growth of the surface that a running total has missed: replacements without a claim, and
claims that differ from the price of their range. -/
def hiddenGrowth (log : List MeterEvent) : ℤ := hiddenBack log.reverse

/-- An armed claim is not contradicted by the replacement behind it. -/
def FitsClaim (log : List MeterEvent) (event : MeterEvent) : Prop :=
  ∀ claim ∈ armedClaim log, ∀ start stop, event.surface = some (.replace start stop) →
    claim.range = ⟨start, stop⟩

/-- No armed claim is contradicted. -/
def Uncontradicted (log : List MeterEvent) : Prop := Log.EachAt FitsClaim log

/-- A replacement follows a claim that states the price of its range. -/
def PricedAt (log : List MeterEvent) (event : MeterEvent) : Prop :=
  ∀ start stop, event.surface = some (.replace start stop) →
    armedClaim log = some ⟨⟨start, stop⟩, shadowedPrice log start stop⟩

/-! ## The property -/

/-- Every cell is the fold of the log. -/
def TokenCells.Kept (cells : TokenCells) (log : List MeterEvent) : Prop :=
  (∀ state ∈ cells.usage, tokenUsageProjectionDefinition.buildCell log = .ok state) ∧
    (∀ state ∈ cells.pressure, contextPressureProjectionDefinition.buildCell log = .ok state) ∧
    ∀ state ∈ cells.breakdown, contextBreakdownProjectionDefinition.buildCell log = .ok state

/-- At every event boundary a snapshot is served, and the event behind it is driven through, whether
the cells were built before or not. -/
def NeverThrows (log : List MeterEvent) : Prop :=
  ∀ front back, log = front ++ back → ∀ cells : TokenCells, cells.Kept front →
    (∃ views, cells.snapshot front = .ok views) ∧
      ∀ event rest, back = event :: rest → ∀ listening, ∃ cells' : TokenCells,
        cells.drive front event listening = .ok cells' ∧ cells'.Kept (front ++ [event])

/-- What the running total has missed never exceeds the price of the surface. -/
def Covered (log : List MeterEvent) : Prop :=
  ∀ front back, log = front ++ back → hiddenGrowth front ≤ surfacePrice front (surfaceNodes front)

/-- Every context window that is announced is positive. -/
def PositiveWindows (log : List MeterEvent) : Prop :=
  ∀ event ∈ log, ∀ window, event.data = .requestContext (some window) → 0 < window

/-! ## Prices -/

theorem hiddenGrowth_concat (log : List MeterEvent) (event : MeterEvent) :
    hiddenGrowth (log ++ [event]) = hiddenGrowth log + hiddenAt log event := by
  rw [hiddenGrowth, List.reverse_concat, hiddenBack, List.reverse_reverse]
  rfl

theorem armedClaim_concat (log : List MeterEvent) (event : MeterEvent) :
    armedClaim (log ++ [event]) = shadowPrice event := by
  rw [armedClaim, List.getLast?_concat, Option.bind_some]

/-! ## One event -/

/-- **What a projection adds** is what the surface gains, less what is hidden from it. -/
theorem foldSurfaceProjection_drift {log : List MeterEvent} {state : SurfaceFoldState}
    {event : MeterEvent} {plan : Option SurfacePlan}
    (hafter : surfaceAfter (log.map (·.json)) = .ok state)
    (hplan : planNext state (log.map (·.json)) event.json = .ok plan)
    (hclaims : FitsClaim log event) :
    foldSurfaceProjection (armedClaim log) event
      = .ok ⟨(surfacePrice (log ++ [event]) (commitPlan state plan).nodes : ℤ)
          - surfacePrice log state.nodes - hiddenAt log event, shadowPrice event⟩ := by
  rw [surfacePrice_commitPlan hafter hplan, foldSurfaceProjection]
  rcases hprice : shadowPrice event with _ | armed
  · rcases hop : event.surface with _ | _ | ⟨start, stop⟩
    · simp [hiddenAt, hop]
    · simp [hiddenAt, hop]
    · rcases hclaim : armedClaim log with _ | claim
      · simp [hiddenAt, hop, hclaim]
      · have hrange := hclaims claim hclaim start stop hop
        simp only [hiddenAt, hop, hclaim, hrange, ne_eq, not_true_eq_false, if_false]
        congr 2
        omega
  · rw [hiddenAt, surface_of_shadowPrice hprice]
    simp

/-! ## Whole logs -/

/-- The buckets count nothing negative. -/
def TokenUsageProjection.Le (a b : TokenUsageProjection) : Prop :=
  a.uncachedInputTokens ≤ b.uncachedInputTokens ∧ a.outputTokens ≤ b.outputTokens ∧
    a.cacheReadTokens ≤ b.cacheReadTokens ∧ a.cacheWriteTokens ≤ b.cacheWriteTokens

/-- The last sample is part of the totals. -/
structure TokenUsageState.Inv (state : TokenUsageState) : Prop where
  totals : zeroBuckets.Le state.totals
  last : ∀ sample ∈ state.last, zeroBuckets.Le sample.buckets ∧ sample.buckets.Le state.totals

theorem zeroBuckets_le_bucketsFrom (usage : TokenUsage) : zeroBuckets.Le (bucketsFrom usage) :=
  ⟨Int.natCast_nonneg _, Int.natCast_nonneg _, Int.natCast_nonneg _, Int.natCast_nonneg _⟩

/-- Replacing a part of the totals keeps the rest. -/
theorem addReplacing_le {totals next : TokenUsageProjection}
    {previous : Option TokenUsageProjection} (htotals : zeroBuckets.Le totals)
    (hprevious : ∀ buckets ∈ previous, buckets.Le totals) :
    next.Le (addReplacing totals previous next) := by
  have hle : (previous.getD zeroBuckets).Le totals := by
    rcases previous with _ | buckets
    · exact htotals
    · exact hprevious buckets rfl
  obtain ⟨hinput, houtput, hread, hwrite⟩ := hle
  simp only [TokenUsageProjection.Le, addReplacing]
  omega

theorem TokenUsageProjection.Le.trans {a b c : TokenUsageProjection} (hab : a.Le b)
    (hbc : b.Le c) : a.Le c :=
  ⟨hab.1.trans hbc.1, hab.2.1.trans hbc.2.1, hab.2.2.1.trans hbc.2.2.1, hab.2.2.2.trans hbc.2.2.2⟩

theorem TokenUsageState.Inv.apply {state : TokenUsageState} (h : state.Inv) (event : MeterEvent) :
    (state.apply event).Inv := by
  rw [TokenUsageState.apply]
  rcases usageReport event with _ | ⟨turn, step, usage⟩
  · exact h
  · simp only
    split_ifs with hsame
    · exact h
    · have hnext := zeroBuckets_le_bucketsFrom usage
      have hle : (bucketsFrom usage).Le
          (addReplacing state.totals (state.previous turn step) (bucketsFrom usage)) := by
        apply addReplacing_le h.totals
        intro buckets hbuckets
        obtain ⟨sample, hsample, rfl⟩ := Option.map_eq_some_iff.mp hbuckets
        exact (h.last sample (Option.filter_eq_some_iff.mp hsample).1).2
      exact ⟨hnext.trans hle, fun sample hsample ↦ by
        obtain rfl := Option.some.inj hsample
        exact ⟨hnext, hle⟩⟩

/-- The denominator that a log leaves is one that it has announced. -/
theorem ContextPressureState.contextWindow_apply {state next : ContextPressureState}
    {event : MeterEvent} (h : state.apply event = .ok next) :
    next.contextWindow = match event.data with
      | .requestContext contextWindow => contextWindow
      | _ => state.contextWindow := by
  obtain ⟨fold, -, rfl⟩ := Replay.map_eq_ok.mp h
  simp only [withSample, withWindow]
  rcases usageOf event with _ | usage
  · cases event.data <;> rfl
  · cases event.data <;> rfl

/-- The units after a log. -/
structure DriftInv (log : List MeterEvent) (state : SurfaceFoldState) (usage : TokenUsageState)
    (pressure : ContextPressureState) (breakdown : ContextBreakdownState) : Prop where
  accepted : surfaceAfter (log.map (·.json)) = .ok state
  used : project (fun state event ↦ .ok (state.apply event)) .init log = .ok usage
  occupied : project ContextPressureState.apply .init log = .ok pressure
  projected : project ContextBreakdownState.apply .init log = .ok breakdown
  usage : usage.Inv
  window : ∀ window ∈ pressure.contextWindow, ∃ event ∈ log,
    event.data = .requestContext (some window)
  pressureClaim : pressure.claim = armedClaim log
  breakdownClaim : breakdown.claim = armedClaim log
  messageTokens : breakdown.messageTokens = surfacePrice log state.nodes - hiddenGrowth log

theorem driftInv_nil : DriftInv [] createFoldState .init .init .init where
  accepted := rfl
  used := rfl
  occupied := rfl
  projected := rfl
  usage := ⟨⟨le_rfl, le_rfl, le_rfl, le_rfl⟩, fun _ hsample ↦ absurd hsample
    (by simp [TokenUsageState.init])⟩
  window _ hwindow := absurd hwindow (by simp [ContextPressureState.init])
  pressureClaim := rfl
  breakdownClaim := rfl
  messageTokens := rfl

section Units

variable {log : List MeterEvent} {state : SurfaceFoldState} {usage : TokenUsageState}
  {pressure : ContextPressureState} {breakdown : ContextBreakdownState}

/-- One more accepted event. -/
theorem DriftInv.concat (h : DriftInv log state usage pressure breakdown) {event : MeterEvent}
    {plan : Option SurfacePlan} (hplan : planNext state (log.map (·.json)) event.json = .ok plan)
    (hclaims : FitsClaim log event) :
    ∃ pressure' breakdown', pressure.apply event = .ok pressure' ∧
      breakdown.apply event = .ok breakdown' ∧
      DriftInv (log ++ [event]) (commitPlan state plan) (usage.apply event) pressure'
        breakdown' := by
  have hfold := foldSurfaceProjection_drift h.accepted hplan hclaims
  obtain ⟨breakdown', hbreakdown, hmessage, hbreakdownClaim⟩ :=
    ContextBreakdownState.apply_eq_ok (h.breakdownClaim ▸ hfold)
  obtain ⟨pressure', hpressure, -, hpressureClaim⟩ :=
    ContextPressureState.apply_eq_ok (h.pressureClaim ▸ hfold)
  refine ⟨pressure', breakdown', hpressure, hbreakdown, ?_⟩
  constructor
  · rw [json_append, surfaceAfter, Replay.replay_concat]
    exact Replay.bind_eq_ok.mpr ⟨state, h.accepted, Replay.map_eq_ok.mpr ⟨plan, hplan, rfl⟩⟩
  · rw [project_concat, h.used]
    rfl
  · rw [project_concat, h.occupied]
    exact hpressure
  · rw [project_concat, h.projected]
    exact hbreakdown
  · exact h.usage.apply event
  · intro window hwindow
    rw [ContextPressureState.contextWindow_apply hpressure] at hwindow
    split at hwindow
    case h_1 contextWindow hdata =>
      exact ⟨event, by simp, by rw [hdata, Option.mem_def.mp hwindow]⟩
    case h_2 =>
      obtain ⟨announced, hannounced, hdata⟩ := h.window window hwindow
      exact ⟨announced, List.mem_append_left _ hannounced, hdata⟩
  · rw [hpressureClaim, armedClaim_concat]
  · rw [hbreakdownClaim, armedClaim_concat]
  · rw [hmessage, h.messageTokens, hiddenGrowth_concat]
    simp only
    omega

/-- The units fold every log that the surface fold accepts and whose claims are not contradicted. -/
theorem exists_driftInv {log : List MeterEvent} (hclaims : Uncontradicted log) :
    ∀ {state : SurfaceFoldState}, surfaceAfter (log.map (·.json)) = .ok state →
      ∃ usage pressure breakdown, DriftInv log state usage pressure breakdown := by
  induction log using List.reverseRecOn with
  | nil =>
    intro state haccepted
    rw [List.map_nil, surfaceAfter, Replay.replay_nil] at haccepted
    rw [← Except.ok.inj haccepted]
    exact ⟨_, _, _, driftInv_nil⟩
  | append_singleton log event ih =>
    intro state haccepted
    rw [json_append, surfaceAfter, Replay.replay_concat] at haccepted
    obtain ⟨before, hbefore, htake⟩ := Replay.bind_eq_ok.mp haccepted
    obtain ⟨plan, hplan, rfl⟩ := Replay.map_eq_ok.mp htake
    obtain ⟨usage, pressure, breakdown, hinv⟩ := ih hclaims.take hbefore
    obtain ⟨pressure', breakdown', -, -, hnext⟩ := hinv.concat hplan hclaims.of_concat
    exact ⟨_, pressure', breakdown', hnext⟩

/-! ## Views -/

/-- The schemas accept what the units show. -/
def Shown (usage : TokenUsageState) (pressure : ContextPressureState)
    (breakdown : ContextBreakdownState) : Prop :=
  projectionSchema usage.totals = true ∧ pressureSchema pressure.view = true ∧
    breakdownSchema breakdown.view = true

theorem projectionSchema_totals (h : usage.Inv) : projectionSchema usage.totals = true := by
  rw [projectionSchema, decide_eq_true_eq]
  exact h.totals

/-- The occupancy clamps what it shows; only the window can be refused. -/
theorem pressureSchema_view (pressure : ContextPressureState) :
    pressureSchema pressure.view = true ↔ ∀ window ∈ pressure.contextWindow, 0 < window := by
  have hpressure : pressure.view.pressureTokens.all (fun tokens ↦ decide (0 ≤ tokens)) = true := by
    rw [ContextPressureState.view]
    rcases pressure.pressureTokens with _ | tokens
    · rfl
    · simp
  have hprojected : pressure.view.projectedTokens.all (fun tokens ↦ decide (0 ≤ tokens))
      = true := by
    rw [ContextPressureState.view]
    rcases pressure.pressureTokens with _ | tokens
    · rfl
    · rcases pressure.sampledSurfaceTokens with _ | sampled
      · rfl
      · simp
  rw [pressureSchema, hpressure, hprojected, ContextPressureState.view]
  rcases pressure.contextWindow with _ | window
  · simp
  · simp

theorem breakdownSchema_view (breakdown : ContextBreakdownState) :
    breakdownSchema breakdown.view = true ↔ 0 ≤ breakdown.messageTokens := by
  simp [breakdownSchema, ContextBreakdownState.view]

/-- **The views after a log** are accepted exactly when the price of the surface covers what is
hidden, and the last announced window is positive. -/
theorem DriftInv.shown_iff (h : DriftInv log state usage pressure breakdown) :
    Shown usage pressure breakdown ↔ hiddenGrowth log ≤ surfacePrice log (surfaceNodes log) ∧
      ∀ window ∈ pressure.contextWindow, 0 < window := by
  rw [Shown, pressureSchema_view, breakdownSchema_view, h.messageTokens, surfaceNodes_eq h.accepted]
  have husage := projectionSchema_totals h.usage
  constructor
  · rintro ⟨-, hwindow, hmessage⟩
    exact ⟨by omega, hwindow⟩
  · rintro ⟨hcovered, hwindow⟩
    exact ⟨husage, hwindow, by omega⟩

end Units

/-! ## Reads and drives -/

namespace TokenUnit

variable {State View : Type} {unit : TokenUnit State View} {log : List MeterEvent} {state : State}

theorem buildCell_eq_ok :
    unit.buildCell log = .ok state ↔ project unit.apply unit.init log = .ok state := by
  rw [buildCell]
  rcases project unit.apply unit.init log with fault | found
  · simp [Except.mapError]
  · simp [Except.mapError]

theorem cellFor_eq {cell : Option State} (hcell : ∀ kept ∈ cell, unit.buildCell log = .ok kept)
    (h : unit.buildCell log = .ok state) : unit.cellFor cell log = .ok state := by
  rcases cell with _ | kept
  · exact h
  · rw [cellFor, ← h, hcell kept rfl]

theorem parse_eq_ok (h : unit.schema (unit.view state) = true) :
    unit.parse state = .ok (unit.view state) := by
  rw [parse]
  exact if_pos h

/-- A unit whose view is accepted is read, and one whose view is refused is not. -/
theorem snapshot_eq_ok {cell : Option State} (hcell : ∀ kept ∈ cell, unit.buildCell log = .ok kept)
    (h : unit.buildCell log = .ok state) :
    (∃ view, unit.snapshot cell log = .ok view) ↔ unit.schema (unit.view state) = true := by
  rw [snapshot, cellFor_eq hcell h]
  change (∃ view, unit.parse state = .ok view) ↔ _
  rw [parse]
  by_cases hschema : unit.schema (unit.view state) = true
  · simp [hschema]
  · simp [hschema]

theorem drive_eq_ok {cell : Option State} {event : MeterEvent} {next : State} (listening : Bool)
    (hcell : ∀ kept ∈ cell, unit.buildCell log = .ok kept) (h : unit.buildCell log = .ok state)
    (hnext : unit.apply state event = .ok next) (hschema : unit.schema (unit.view next) = true) :
    unit.drive cell log event listening = .ok next := by
  rw [drive, cellFor_eq hcell h]
  change ((unit.apply state event).mapError ProjectionFault.fold).bind _ = _
  rw [hnext]
  change (if !unit.unchanged state event && listening then (unit.parse next).map fun _ ↦ next
    else .ok next) = _
  rw [parse_eq_ok hschema]
  split_ifs
  · rfl
  · rfl

end TokenUnit

/-- The cells after a log, when they have all been built. -/
theorem DriftInv.kept {log : List MeterEvent} {state : SurfaceFoldState} {usage : TokenUsageState}
    {pressure : ContextPressureState} {breakdown : ContextBreakdownState}
    (h : DriftInv log state usage pressure breakdown) :
    TokenCells.Kept ⟨some usage, some pressure, some breakdown⟩ log := by
  refine ⟨?_, ?_, ?_⟩
  · intro kept hkept
    rw [← Option.some.inj hkept]
    exact TokenUnit.buildCell_eq_ok.mpr h.used
  · intro kept hkept
    rw [← Option.some.inj hkept]
    exact TokenUnit.buildCell_eq_ok.mpr h.occupied
  · intro kept hkept
    rw [← Option.some.inj hkept]
    exact TokenUnit.buildCell_eq_ok.mpr h.projected

section Reads

variable {log : List MeterEvent} {state : SurfaceFoldState} {usage : TokenUsageState}
  {pressure : ContextPressureState} {breakdown : ContextBreakdownState} {cells : TokenCells}

/-- A snapshot is served exactly when the schemas accept every view. -/
theorem DriftInv.snapshot_iff (h : DriftInv log state usage pressure breakdown)
    (hkept : cells.Kept log) :
    (∃ views, cells.snapshot log = .ok views) ↔ Shown usage pressure breakdown := by
  obtain ⟨husage, hpressure, hbreakdown⟩ := hkept
  have hused : (∃ view, tokenUsageProjectionDefinition.snapshot cells.usage log = .ok view)
      ↔ projectionSchema usage.totals = true :=
    TokenUnit.snapshot_eq_ok husage (TokenUnit.buildCell_eq_ok.mpr h.used)
  have hoccupied : (∃ view, contextPressureProjectionDefinition.snapshot cells.pressure log
      = .ok view) ↔ pressureSchema pressure.view = true :=
    TokenUnit.snapshot_eq_ok hpressure (TokenUnit.buildCell_eq_ok.mpr h.occupied)
  have hprojected : (∃ view, contextBreakdownProjectionDefinition.snapshot cells.breakdown log
      = .ok view) ↔ breakdownSchema breakdown.view = true :=
    TokenUnit.snapshot_eq_ok hbreakdown (TokenUnit.buildCell_eq_ok.mpr h.projected)
  rw [Shown, ← hused, ← hoccupied, ← hprojected]
  constructor
  · rintro ⟨views, hviews⟩
    obtain ⟨totals, htotals, hviews⟩ := Replay.bind_eq_ok.mp hviews
    obtain ⟨occupancy, hoccupancy, hviews⟩ := Replay.bind_eq_ok.mp hviews
    obtain ⟨composition, hcomposition, -⟩ := Replay.bind_eq_ok.mp hviews
    exact ⟨⟨totals, htotals⟩, ⟨occupancy, hoccupancy⟩, ⟨composition, hcomposition⟩⟩
  · rintro ⟨⟨totals, htotals⟩, ⟨occupancy, hoccupancy⟩, ⟨composition, hcomposition⟩⟩
    exact ⟨⟨totals, occupancy, composition⟩, Replay.bind_eq_ok.mpr ⟨totals, htotals,
      Replay.bind_eq_ok.mpr ⟨occupancy, hoccupancy,
        Replay.bind_eq_ok.mpr ⟨composition, hcomposition, rfl⟩⟩⟩⟩

/-- An event is driven through when the schemas accept the views behind it. -/
theorem DriftInv.drive_eq_ok (h : DriftInv log state usage pressure breakdown)
    (hkept : cells.Kept log) {event : MeterEvent} {pressure' : ContextPressureState}
    {breakdown' : ContextBreakdownState} (hpressure : pressure.apply event = .ok pressure')
    (hbreakdown : breakdown.apply event = .ok breakdown')
    (hshown : Shown (usage.apply event) pressure' breakdown') (listening : Bool) :
    cells.drive log event listening
      = .ok ⟨some (usage.apply event), some pressure', some breakdown'⟩ := by
  have husage : tokenUsageProjectionDefinition.drive cells.usage log event listening
      = .ok (usage.apply event) :=
    TokenUnit.drive_eq_ok listening hkept.1 (TokenUnit.buildCell_eq_ok.mpr h.used) rfl hshown.1
  have hoccupied := TokenUnit.drive_eq_ok listening hkept.2.1
    (TokenUnit.buildCell_eq_ok.mpr h.occupied) hpressure hshown.2.1
  have hprojected := TokenUnit.drive_eq_ok listening hkept.2.2
    (TokenUnit.buildCell_eq_ok.mpr h.projected) hbreakdown hshown.2.2
  exact Replay.bind_eq_ok.mpr ⟨_, husage, Replay.bind_eq_ok.mpr ⟨_, hoccupied,
    Replay.bind_eq_ok.mpr ⟨_, hprojected, rfl⟩⟩⟩

end Reads

theorem PositiveWindows.window {log : List MeterEvent} {state : SurfaceFoldState}
    {usage : TokenUsageState} {pressure : ContextPressureState} {breakdown : ContextBreakdownState}
    (h : DriftInv log state usage pressure breakdown) (hwindows : PositiveWindows log) :
    ∀ window ∈ pressure.contextWindow, 0 < window := by
  intro window hwindow
  obtain ⟨event, hevent, hdata⟩ := h.window window hwindow
  exact hwindows event hevent window hdata

/-- **When the token projections never throw**: on a log that the surface fold accepts and whose
armed claims are not contradicted, every snapshot is served and every event is driven through if and
only if what is hidden from the running total never exceeds the price of the surface, and every
announced context window is positive. -/
theorem neverThrows_iff {log : List MeterEvent}
    (haccepted : ∃ fold, foldSurface (log.map (·.json)) = .ok fold) (hclaims : Uncontradicted log) :
    NeverThrows log ↔ Covered log ∧ PositiveWindows log := by
  obtain ⟨fold, hfold⟩ := haccepted
  have hsurface : surfaceAfter (log.map (·.json)) = .ok fold.state := by
    rw [← foldSurface_eq, hfold]
    rfl
  have hfront (front back : List MeterEvent) (hlog : log = front ++ back) :
      ∃ state usage pressure breakdown, DriftInv front state usage pressure breakdown := by
    rw [hlog, List.map_append] at hsurface
    obtain ⟨state, hstate⟩ := Replay.exists_replay_of_append hsurface
    obtain ⟨usage, pressure, breakdown, hinv⟩ :=
      exists_driftInv (Log.EachAt.take (hlog ▸ hclaims)) hstate
    exact ⟨state, usage, pressure, breakdown, hinv⟩
  constructor
  · intro hnever
    refine ⟨fun front back hlog ↦ ?_, fun event hevent window hdata ↦ ?_⟩
    · obtain ⟨state, usage, pressure, breakdown, hinv⟩ := hfront front back hlog
      have hserved := (hnever front back hlog _ hinv.kept).1
      exact (hinv.shown_iff.mp ((hinv.snapshot_iff hinv.kept).mp hserved)).1
    · obtain ⟨front, back, hlog⟩ := List.append_of_mem hevent
      rw [List.append_cons] at hlog
      obtain ⟨state, usage, pressure, breakdown, hinv⟩ := hfront (front ++ [event]) back hlog
      have hserved := (hnever (front ++ [event]) back hlog _ hinv.kept).1
      have hwindows := (hinv.shown_iff.mp ((hinv.snapshot_iff hinv.kept).mp hserved)).2
      have hoccupied := hinv.occupied
      rw [project_concat] at hoccupied
      obtain ⟨before, -, happly⟩ := Replay.bind_eq_ok.mp hoccupied
      apply hwindows
      rw [ContextPressureState.contextWindow_apply happly, hdata]
      rfl
  · rintro ⟨hcovered, hpositive⟩ front back hlog cells hkept
    have hshown (front' back' : List MeterEvent) (hlog' : log = front' ++ back')
        {state : SurfaceFoldState} {usage : TokenUsageState} {pressure : ContextPressureState}
        {breakdown : ContextBreakdownState}
        (hinv : DriftInv front' state usage pressure breakdown) :
        Shown usage pressure breakdown := by
      refine hinv.shown_iff.mpr ⟨hcovered front' back' hlog', ?_⟩
      apply PositiveWindows.window hinv
      intro event hevent
      exact hpositive event (hlog' ▸ List.mem_append_left _ hevent)
    obtain ⟨state, usage, pressure, breakdown, hinv⟩ := hfront front back hlog
    refine ⟨(hinv.snapshot_iff hkept).mpr (hshown front back hlog hinv), ?_⟩
    rintro event rest rfl listening
    have hlog' : log = (front ++ [event]) ++ rest := by simp [hlog]
    rw [hlog', List.map_append] at hsurface
    obtain ⟨after, hafter⟩ := Replay.exists_replay_of_append hsurface
    rw [json_append, Replay.replay_concat] at hafter
    obtain ⟨before, hbefore, htake⟩ := Replay.bind_eq_ok.mp hafter
    obtain ⟨plan, hplan, -⟩ := Replay.map_eq_ok.mp htake
    obtain rfl : before = state := Except.ok.inj (hbefore.symm.trans hinv.accepted)
    obtain ⟨pressure', breakdown', hpressure, hbreakdown, hnext⟩ :=
      hinv.concat hplan (hclaims front event rest hlog)
    exact ⟨_, hinv.drive_eq_ok hkept hpressure hbreakdown (hshown _ rest hlog' hnext) listening,
      hnext.kept⟩

/-- Exact claims hide nothing. -/
theorem covered_of_priced {log : List MeterEvent} (h : Log.EachAt PricedAt log) : Covered log := by
  have hzero (front : List MeterEvent) (hfront : Log.EachAt PricedAt front) :
      hiddenGrowth front = 0 := by
    induction front using List.reverseRecOn with
    | nil => rfl
    | append_singleton front event ih =>
      rw [hiddenGrowth_concat, ih hfront.take, Int.zero_add, hiddenAt]
      rcases hop : event.surface with _ | _ | ⟨start, stop⟩
      · rfl
      · rfl
      · rw [hfront.of_concat start stop hop]
        exact Int.sub_self _
  intro front back hlog
  rw [hzero front (Log.EachAt.take (hlog ▸ h))]
  exact Int.natCast_nonneg _

theorem uncontradicted_of_priced {log : List MeterEvent} (h : Log.EachAt PricedAt log) :
    Uncontradicted log := by
  intro front event back hlog claim hclaim start stop hop
  rw [h front event back hlog start stop hop] at hclaim
  rw [← Option.some.inj hclaim]

/-! ## A replacement that grows, and a pruning of what has grown -/

/-- A long answer that replaces the prompt, without a metering event. -/
def grown : MeterEvent where
  json := storedEvent "user/message" 1 [prop "surfaceOp" (surfaceOpJson (.replace 0 0)),
    prop "sourceEventSeqs" (.arr [integer 0])]
  seq := 1
  data := .userMessage ⟨[.text (js "list all of the files in this directory and below")]⟩
  surfaceOp := some (.replace 0 0)
  sourceEventSeqs := some [0]
  json_type := rfl
  json_seq := rfl
  json_surfaceOp := rfl

/-- The metering event of its pruning. -/
def metering : MeterEvent where
  json := storedEvent "compaction/prune" 2 []
  seq := 2
  data := .compactionPrune ⟨1, 1⟩ 21
  surfaceOp := none
  sourceEventSeqs := none
  json_type := rfl
  json_seq := rfl
  json_surfaceOp := rfl

/-- Its pruning. -/
def shrunk : MeterEvent where
  json := storedEvent "user/message" 3 [prop "surfaceOp" (surfaceOpJson (.replace 1 1)),
    prop "sourceEventSeqs" (.arr [integer 1])]
  seq := 3
  data := .userMessage ⟨[]⟩
  surfaceOp := some (.replace 1 1)
  sourceEventSeqs := some [1]
  json_type := rfl
  json_seq := rfl
  json_surfaceOp := rfl

/-- What an event that replaces nothing has to state. -/
theorem pricedAt_of_surface {log : List MeterEvent} {event : MeterEvent}
    (h : ∀ start stop, event.surface ≠ some (.replace start stop)) : PricedAt log event :=
  fun start stop hop ↦ absurd hop (h start stop)

theorem priced_pruned : Log.EachAt PricedAt [prompt, pruning, pruned] := by
  have hprompt : PricedAt [] prompt := pricedAt_of_surface (by
    intro start stop
    have hsurface : prompt.surface = some .append := rfl
    simp [hsurface])
  have hpruning : PricedAt [prompt] pruning := pricedAt_of_surface (by
    intro start stop
    have hsurface : pruning.surface = none := rfl
    simp [hsurface])
  have hpruned : PricedAt [prompt, pruning] pruned := by
    intro start stop hop
    have hsurface : pruned.surface = some (.replace 0 0) := rfl
    rw [hsurface] at hop
    obtain ⟨rfl, rfl⟩ : 0 = start ∧ 0 = stop := by simpa using hop
    rfl
  exact ((Log.eachAt_nil.concat hprompt).concat hpruning).concat hpruned

/-- A replacement that is metered at its price is served. -/
theorem neverThrows_pruned : NeverThrows [prompt, pruning, pruned] :=
  (neverThrows_iff ⟨_, rfl⟩ (uncontradicted_of_priced priced_pruned)).mpr
    ⟨covered_of_priced priced_pruned, by simp [PositiveWindows, prompt, pruning, pruned]⟩

theorem uncontradicted_shrunk : Uncontradicted [prompt, grown, metering, shrunk] := by
  have hprompt : FitsClaim [] prompt := by simp [FitsClaim, armedClaim]
  have hgrown : FitsClaim [prompt] grown := by simp [FitsClaim, armedClaim, shadowPrice, prompt]
  have hmetering : FitsClaim [prompt, grown] metering := by
    simp [FitsClaim, armedClaim, shadowPrice, grown]
  have hshrunk : FitsClaim [prompt, grown, metering] shrunk := by
    intro claim hclaim start stop hop
    obtain rfl : ⟨⟨1, 1⟩, 21⟩ = claim := Option.some.inj hclaim
    have hsurface : shrunk.surface = some (.replace 1 1) := rfl
    rw [hsurface] at hop
    obtain ⟨rfl, rfl⟩ : 1 = start ∧ 1 = stop := by simpa using hop
    rfl
  exact (((Log.eachAt_nil.concat hprompt).concat hgrown).concat hmetering).concat hshrunk

/-- The replacement adds nothing to the total, and its pruning takes away all of its price. -/
theorem not_neverThrows_shrunk : ¬ ∀ log : List MeterEvent,
    (∃ fold, foldSurface (log.map (·.json)) = .ok fold) → Uncontradicted log → NeverThrows log := by
  intro hall
  have hnever := hall [prompt, grown, metering, shrunk] ⟨_, rfl⟩ uncontradicted_shrunk
  have hkept : TokenCells.Kept ⟨none, none, none⟩ [prompt, grown, metering, shrunk] :=
    ⟨fun _ h ↦ absurd h (by simp), fun _ h ↦ absurd h (by simp), fun _ h ↦ absurd h (by simp)⟩
  obtain ⟨views, hviews⟩ := (hnever _ [] (List.append_nil _).symm _ hkept).1
  have hrefused : TokenCells.snapshot ⟨none, none, none⟩ [prompt, grown, metering, shrunk]
      = .error (.schema "contextBreakdown") := by
    rfl
  rw [hrefused] at hviews
  simp at hviews

end XxAgent.Tokens
