import XxAgent.Tokens.Meter

/-!
# Bounded token projections

The projections keep a running total instead of priced nodes. A metering event states the price of
the range that the very next event replaces, and the total is reduced by this claim.
-/

namespace XxAgent.Tokens

open Ecma

/-- `ShadowPriceClaim` -/
structure ShadowPriceClaim where
  range : SurfaceRange
  tokens : ℕ
deriving DecidableEq

/-- `SurfaceTokensFold` -/
structure SurfaceTokensFold where
  deltaTokens : ℤ
  claim : Option ShadowPriceClaim

/-- The claim that a metering event arms. -/
def shadowPrice (event : MeterEvent) : Option ShadowPriceClaim :=
  match event.data with
  | .compactionSummary range tokens => some ⟨range, tokens⟩
  | .compactionPrune range tokens => some ⟨range, tokens⟩
  | _ => none

/-- `foldSurfaceProjection` -/
def foldSurfaceProjection (claim : Option ShadowPriceClaim) (event : MeterEvent) :
    Except MeterFault SurfaceTokensFold :=
  match shadowPrice event with
  | some armed => .ok ⟨0, some armed⟩
  | none =>
    match event.surface with
    | none => .ok ⟨0, none⟩
    | some .append => .ok ⟨eventTokens event, none⟩
    | some (.replace start stop) =>
      match claim with
      -- The log was recorded before replacements were metered.
      | none => .ok ⟨0, none⟩
      | some claim =>
        if claim.range ≠ ⟨start, stop⟩ then .error (.shadowPrice event.seq start stop)
        else .ok ⟨(eventTokens event : ℤ) - claim.tokens, none⟩

/-! ## Composition of the context -/

structure ContextBreakdownState where
  systemTokens : ℕ
  toolsTokens : ℕ
  messageTokens : ℤ
  claim : Option ShadowPriceClaim

namespace ContextBreakdownState

def init : ContextBreakdownState := ⟨0, 0, 0, none⟩

/-- `contextBreakdownProjectionDefinition.apply` -/
def apply (state : ContextBreakdownState) (event : MeterEvent) :
    Except MeterFault ContextBreakdownState :=
  (foldSurfaceProjection state.claim event).map fun fold ↦
    let (systemTokens, toolsTokens) := match event.data with
      | .requestHeader header =>
        (estimateSystemTokens (some (canonicalHeader header)),
          estimateToolsTokens (some (canonicalHeader header)))
      | _ => (state.systemTokens, state.toolsTokens)
    if systemTokens = state.systemTokens ∧ toolsTokens = state.toolsTokens ∧
        fold.deltaTokens = 0 ∧ fold.claim = none ∧ state.claim = none then state
    else ⟨systemTokens, toolsTokens, state.messageTokens + fold.deltaTokens, fold.claim⟩

end ContextBreakdownState

/-! ## Occupancy of the context -/

structure ContextPressureState where
  contextWindow : Option ℕ
  pressureTokens : Option ℕ
  surfaceTokens : ℤ
  sampledSurfaceTokens : Option ℤ
  claim : Option ShadowPriceClaim

/-- `usageOf` -/
def usageOf (event : MeterEvent) : Option TokenUsage :=
  match event.data with
  | .assistantChunk _ _ (.usage usage) => some usage
  | .assistantMessage _ _ _ usage => usage
  | _ => none

namespace ContextPressureState

def init : ContextPressureState := ⟨none, none, 0, none, none⟩

/-- The newest denominator. -/
def withWindow (state : ContextPressureState) (event : MeterEvent) : ContextPressureState :=
  match event.data with
  | .requestContext contextWindow => { state with contextWindow := contextWindow }
  | _ => state

/-- The newest sample, stamped before its event joins the surface. -/
def withSample (state : ContextPressureState) (event : MeterEvent) : ContextPressureState :=
  match usageOf event with
  | none => state
  | some usage => { state with
      pressureTokens := some (pressureFrom usage)
      sampledSurfaceTokens := some state.surfaceTokens }

/-- `contextPressureProjectionDefinition.apply` -/
def apply (state : ContextPressureState) (event : MeterEvent) :
    Except MeterFault ContextPressureState :=
  (foldSurfaceProjection state.claim event).map fun fold ↦
    let next := (state.withWindow event).withSample event
    { next with surfaceTokens := next.surfaceTokens + fold.deltaTokens, claim := fold.claim }

end ContextPressureState

/-! ## Folds -/

/-- A projection over a log. -/
def project {σ : Type} (apply : σ → MeterEvent → Except MeterFault σ) (init : σ)
    (log : List MeterEvent) : Except MeterFault σ :=
  log.foldlM apply init

/-!
## Token units of the projection registry

The three units of the token meter, with what they show and what their schemas accept. The registry
folds a unit without a cell from the start of the log, and parses a view whenever it is read or told
to the change feed.
-/

/-! ## Usage -/

/-- The four billing buckets. -/
structure TokenUsageProjection where
  uncachedInputTokens : ℤ
  outputTokens : ℤ
  cacheReadTokens : ℤ
  cacheWriteTokens : ℤ
deriving DecidableEq

/-- `zeroBuckets` -/
def zeroBuckets : TokenUsageProjection := ⟨0, 0, 0, 0⟩

/-- `bucketsFrom` -/
def bucketsFrom (usage : TokenUsage) : TokenUsageProjection where
  uncachedInputTokens := usage.inputTokens
  outputTokens := usage.outputTokens
  cacheReadTokens := usage.cacheReadTokens.getD 0
  cacheWriteTokens := usage.cacheWriteTokens.getD 0

/-- `addReplacing` -/
def addReplacing (totals : TokenUsageProjection) (previous : Option TokenUsageProjection)
    (next : TokenUsageProjection) : TokenUsageProjection :=
  let previous := previous.getD zeroBuckets
  { uncachedInputTokens :=
      totals.uncachedInputTokens - previous.uncachedInputTokens + next.uncachedInputTokens
    outputTokens := totals.outputTokens - previous.outputTokens + next.outputTokens
    cacheReadTokens := totals.cacheReadTokens - previous.cacheReadTokens + next.cacheReadTokens
    cacheWriteTokens :=
      totals.cacheWriteTokens - previous.cacheWriteTokens + next.cacheWriteTokens }

structure UsageSample where
  turn : ℕ
  step : ℕ
  buckets : TokenUsageProjection

structure TokenUsageState where
  totals : TokenUsageProjection
  last : Option UsageSample

/-- The usage that an event reports, and the step that it reports it for. -/
def usageReport (event : MeterEvent) : Option (ℕ × ℕ × TokenUsage) :=
  match event.data with
  | .assistantChunk turn step (.usage usage) => some (turn, step, usage)
  | .assistantMessage turn step _ (some usage) => some (turn, step, usage)
  | _ => none

namespace TokenUsageState

def init : TokenUsageState := ⟨zeroBuckets, none⟩

/-- What the last sample has counted, if it is of the same step. -/
def previous (state : TokenUsageState) (turn step : ℕ) : Option TokenUsageProjection :=
  (state.last.filter fun sample ↦ sample.turn = turn ∧ sample.step = step).map (·.buckets)

/-- `tokenUsageProjectionDefinition.apply` -/
def apply (state : TokenUsageState) (event : MeterEvent) : TokenUsageState :=
  match usageReport event with
  | none => state
  | some (turn, step, usage) =>
    let buckets := bucketsFrom usage
    let previous := state.previous turn step
    if previous = some buckets then state
    else ⟨addReplacing state.totals previous buckets, some ⟨turn, step, buckets⟩⟩

end TokenUsageState

/-! ## Views -/

structure ContextBreakdownProjection where
  systemTokens : ℤ
  toolsTokens : ℤ
  messageTokens : ℤ

structure ContextPressureProjection where
  pressureTokens : Option ℤ
  projectedTokens : Option ℤ
  contextWindow : Option ℤ

def ContextBreakdownState.view (state : ContextBreakdownState) : ContextBreakdownProjection :=
  ⟨state.systemTokens, state.toolsTokens, state.messageTokens⟩

def ContextPressureState.view (state : ContextPressureState) : ContextPressureProjection where
  pressureTokens := state.pressureTokens.map Int.ofNat
  projectedTokens := match state.pressureTokens, state.sampledSurfaceTokens with
    | some pressureTokens, some sampledSurfaceTokens =>
      some (max 0 (pressureTokens + state.surfaceTokens - sampledSurfaceTokens))
    | _, _ => none
  contextWindow := state.contextWindow.map Int.ofNat

/-- `breakdownSchema` -/
def breakdownSchema (view : ContextBreakdownProjection) : Bool :=
  decide (0 ≤ view.systemTokens ∧ 0 ≤ view.toolsTokens ∧ 0 ≤ view.messageTokens)

/-- `pressureSchema` -/
def pressureSchema (view : ContextPressureProjection) : Bool :=
  view.pressureTokens.all (fun tokens ↦ decide (0 ≤ tokens)) &&
    view.projectedTokens.all (fun tokens ↦ decide (0 ≤ tokens)) &&
    view.contextWindow.all (fun tokens ↦ decide (0 < tokens))

/-- `projectionSchema` -/
def projectionSchema (view : TokenUsageProjection) : Bool :=
  decide (0 ≤ view.uncachedInputTokens ∧ 0 ≤ view.outputTokens ∧ 0 ≤ view.cacheReadTokens ∧
    0 ≤ view.cacheWriteTokens)

/-! ## Units -/

/-- `ProjectionDefinition`, with the check that the schema makes. -/
structure TokenUnit (State View : Type) where
  key : String
  init : State
  apply : State → MeterEvent → Except MeterFault State
  /-- Whether `apply` returns the reference it was given. -/
  unchanged : State → MeterEvent → Bool
  view : State → View
  schema : View → Bool

/-- The state that `apply` keeps is the one whose parts nothing moves. -/
def ContextBreakdownState.unchanged (state : ContextBreakdownState) (event : MeterEvent) : Bool :=
  match foldSurfaceProjection state.claim event, state.apply event with
  | .ok fold, .ok next =>
    decide (next.systemTokens = state.systemTokens ∧ next.toolsTokens = state.toolsTokens ∧
      fold.deltaTokens = 0 ∧ fold.claim = none ∧ state.claim = none)
  | _, _ => false

def ContextPressureState.unchanged (state : ContextPressureState) (event : MeterEvent) : Bool :=
  match foldSurfaceProjection state.claim event with
  | .ok fold =>
    let next := (state.withWindow event).withSample event
    decide (next.contextWindow = state.contextWindow ∧
      next.pressureTokens = state.pressureTokens ∧
      next.sampledSurfaceTokens = state.sampledSurfaceTokens ∧
      fold.deltaTokens = 0 ∧ fold.claim = none ∧ state.claim = none)
  | .error _ => false

def TokenUsageState.unchanged (state : TokenUsageState) (event : MeterEvent) : Bool :=
  (usageReport event).all fun report ↦
    decide (state.previous report.1 report.2.1 = some (bucketsFrom report.2.2))

def tokenUsageProjectionDefinition : TokenUnit TokenUsageState TokenUsageProjection where
  key := "tokenUsage"
  init := .init
  apply state event := .ok (state.apply event)
  unchanged := TokenUsageState.unchanged
  view := TokenUsageState.totals
  schema := projectionSchema

def contextPressureProjectionDefinition :
    TokenUnit ContextPressureState ContextPressureProjection where
  key := "contextPressure"
  init := .init
  apply := ContextPressureState.apply
  unchanged := ContextPressureState.unchanged
  view := ContextPressureState.view
  schema := pressureSchema

def contextBreakdownProjectionDefinition :
    TokenUnit ContextBreakdownState ContextBreakdownProjection where
  key := "contextBreakdown"
  init := .init
  apply := ContextBreakdownState.apply
  unchanged := ContextBreakdownState.unchanged
  view := ContextBreakdownState.view
  schema := breakdownSchema

/-! ## The registry -/

/-- Why a read or a drive throws. -/
inductive ProjectionFault where
  | fold (fault : MeterFault)
  /-- The schema refuses a view. -/
  | schema (key : String)

namespace TokenUnit

variable {State View : Type} (unit : TokenUnit State View)

/-- `schema.parse(view(state))` -/
def parse (state : State) : Except ProjectionFault View :=
  let value := unit.view state
  if unit.schema value then .ok value else .error (.schema unit.key)

/-- `buildCell` -/
def buildCell (log : List MeterEvent) : Except ProjectionFault State :=
  (project unit.apply unit.init log).mapError .fold

/-- `cellFor` -/
def cellFor (cell : Option State) (log : List MeterEvent) : Except ProjectionFault State :=
  match cell with
  | some state => .ok state
  | none => unit.buildCell log

/-- The round of `snapshot` for one unit. -/
def snapshot (cell : Option State) (log : List MeterEvent) : Except ProjectionFault View :=
  (unit.cellFor cell log).bind unit.parse

/-- The round of `drive` for one unit: `log` is what came before the event. -/
def drive (cell : Option State) (log : List MeterEvent) (event : MeterEvent) (listening : Bool) :
    Except ProjectionFault State :=
  (unit.cellFor cell log).bind fun state ↦
    ((unit.apply state event).mapError .fold).bind fun next ↦
      if !unit.unchanged state event && listening then (unit.parse next).map fun _ ↦ next
      else .ok next

end TokenUnit

/-- The cells of a session. -/
structure TokenCells where
  usage : Option TokenUsageState
  pressure : Option ContextPressureState
  breakdown : Option ContextBreakdownState

/-- The values of a snapshot. -/
structure TokenViews where
  usage : TokenUsageProjection
  pressure : ContextPressureProjection
  breakdown : ContextBreakdownProjection

/-- `snapshot`, unit by unit in the order of registration. -/
def TokenCells.snapshot (cells : TokenCells) (log : List MeterEvent) :
    Except ProjectionFault TokenViews := do
  let usage ← tokenUsageProjectionDefinition.snapshot cells.usage log
  let pressure ← contextPressureProjectionDefinition.snapshot cells.pressure log
  let breakdown ← contextBreakdownProjectionDefinition.snapshot cells.breakdown log
  return ⟨usage, pressure, breakdown⟩

/-- `drive`, unit by unit in the order of registration. -/
def TokenCells.drive (cells : TokenCells) (log : List MeterEvent) (event : MeterEvent)
    (listening : Bool) : Except ProjectionFault TokenCells := do
  let usage ← tokenUsageProjectionDefinition.drive cells.usage log event listening
  let pressure ← contextPressureProjectionDefinition.drive cells.pressure log event listening
  let breakdown ← contextBreakdownProjectionDefinition.drive cells.breakdown log event listening
  return ⟨some usage, some pressure, some breakdown⟩

/-!
## Replaying accepted logs

The surface fold looks at surface operations, the meter also at steps. On a log that the surface
fold accepts and whose steps are well formed the meter refuses nothing, and its nodes are those of
the surface.
-/

/-! ## The logs -/

/-- The meter's state after a log. -/
def meterAfter (log : List MeterEvent) : Except MeterFault ReplayState :=
  Replay.replay (fun state log event ↦ foldEvent log state event) (fun _ next ↦ next) .initial log

/-- The step that is open after a log. -/
def openStep (log : List MeterEvent) : Option (ℕ × ℕ) :=
  log.foldl (fun found event ↦ match event.data with
    | .stepStart turn step => some (turn, step)
    | .stepEnd _ _ => none
    | _ => found) none

/-- Whether a request envelope has been logged. -/
def hasHeader (log : List MeterEvent) : Bool :=
  log.foldl (fun found event ↦ match event.data with
    | .requestHeader _ => true
    | _ => found) false

/-- The chunk of an event. -/
def MeterEvent.chunkOf (event : MeterEvent) (turn step : ℕ) : Option StreamChunk :=
  match event.data with
  | .assistantChunk turn' step' chunk => if turn' = turn ∧ step' = step then some chunk else none
  | _ => none

/-- The event cites distinct earlier chunks of a step, and these can be assembled. -/
def CitesStep (log : List MeterEvent) (event : MeterEvent) (turn step : ℕ) : Prop :=
  ∀ sources, event.sourceEventSeqs = some sources → sources.Nodup ∧ ∃ chunks,
    sources.mapM (fun source ↦ log[source]?.bind (·.chunkOf turn step)) = some chunks ∧
      (chunks.foldl BlockAssembler.push .new).blocks.isSome

/-- The event fits the steps before it. -/
def FitsSteps (log : List MeterEvent) (event : MeterEvent) : Prop :=
  match event.data with
  | .stepStart _ _ => openStep log = none
  | .stepEnd turn step => openStep log = some (turn, step)
  | .assistantMessage turn step _ usage => openStep log = some (turn, step) ∧
      (usage.isSome → hasHeader log = true → CitesStep log event turn step)
  | _ => True

/-- Steps are opened and closed in turn, every assistant message lies in its step, and one that
reports usage cites the chunks it was assembled from. -/
def WellStepped (log : List MeterEvent) : Prop :=
  ∀ front event back, log = front ++ event :: back → FitsSteps front event

/-- The price of a range of nodes, if there is one. -/
def rangeTokens (nodes : List TokenSurfaceNode) (range : SurfaceRange) : Option ℕ :=
  match nodes.findIdx? (·.seq = range.start), nodes.findIdx? (·.seq = range.stop) with
  | some startIdx, some endIdx => some (nodeTokens (nodeRange nodes startIdx endIdx))
  | _, _ => none

/-- A replacement is announced by the event before it, at the meter's price. -/
def MeteredAt (log : List MeterEvent) (event : MeterEvent) : Prop :=
  ∀ start stop, event.surface = some (.replace start stop) → ∃ metering tokens,
    log.getLast? = some metering ∧ shadowPrice metering = some ⟨⟨start, stop⟩, tokens⟩ ∧
      ∀ state, meterAfter log = .ok state → rangeTokens state.surface ⟨start, stop⟩ = some tokens

/-- Every replacement is metered. -/
def Metered (log : List MeterEvent) : Prop :=
  ∀ front event back, log = front ++ event :: back → MeteredAt front event

/-- The messages derived from a surface. -/
def deriveMessages (log : List MeterEvent) (nodes : List ℕ) : List Message :=
  nodes.filterMap fun seq ↦ log[seq]?.bind deriveEventMessage

/-- `deriveMessages`, priced. -/
def surfacePrice (log : List MeterEvent) (nodes : List ℕ) : ℕ :=
  ((deriveMessages log nodes).map estimateMessage).sum

theorem WellStepped.front {front back : List MeterEvent} (h : WellStepped (front ++ back)) :
    WellStepped front := by
  rintro before event after rfl
  exact h before event (after ++ back) (by simp)

theorem Metered.front {front back : List MeterEvent} (h : Metered (front ++ back)) :
    Metered front := by
  rintro before event after rfl
  exact h before event (after ++ back) (by simp)

/-! ## The surface -/

theorem isSurfaceEligibleType_text (type : String) :
    isSurfaceEligibleType (some (text type)) = decide (type ∈ SURFACE_EVENT_TYPES) := by
  rw [isSurfaceEligibleType, Bool.eq_iff_iff, List.any_eq_true, decide_eq_true_eq]
  constructor
  · rintro ⟨other, hmem, heq⟩
    have hsame : type = other := by simpa using heq
    exact hsame ▸ hmem
  · exact fun hmem ↦ ⟨type, hmem, by simp⟩

theorem toSeq_integer (n : ℕ) : toSeq (some (integer n)) = n := by
  simp [toSeq, integer, Value.toInt]

/-- The operation that the surface fold reads is the one that metering reads. -/
theorem surface_of_surfaceOpOf {event : MeterEvent} {op : Option SurfaceOp}
    (h : surfaceOpOf event.json = .ok op) : event.surface = op := by
  have htype := isSurfaceEligibleType_text event.data.type
  have hmarker := event.json_surfaceOp
  rw [← event.json_type] at htype
  unfold surfaceOpOf at h
  rw [MeterEvent.surface]
  simp only at h
  split_ifs at h with heligible hop hsources hnone happend hrecord hreplace
  · rw [htype, decide_eq_false_iff_not] at heligible
    rw [if_neg heligible]
    exact Except.ok.inj h
  · rw [htype, decide_eq_false_iff_not, not_not] at heligible
    rw [if_pos heligible, ← Except.ok.inj h]
    rw [happend] at hmarker
    generalize event.surfaceOp = found at hmarker ⊢
    rcases found with _ | _ | ⟨start, stop⟩
    · simp at hmarker
    · rfl
    · simp [surfaceOpJson, text] at hmarker
  · rw [htype, decide_eq_false_iff_not, not_not] at heligible
    rw [if_pos heligible, ← Except.ok.inj h]
    rcases hfound : event.surfaceOp with _ | _ | ⟨start, stop⟩
    · exact absurd (by rw [hmarker, hfound]; rfl) hnone
    · exact absurd (by rw [hmarker, hfound]; rfl) happend
    · rw [hmarker, hfound]
      simp [surfaceOpJson, Value.get, toSeq_integer]

/-- What the surface fold has accepted, in terms of what metering reads. -/
theorem plan_of_accepted {state : SurfaceFoldState} {log : List Json} {event : MeterEvent}
    {plan : Option SurfacePlan} (h : planNext state log event.json = .ok plan) :
    event.seq = log.length ∧ (event.surface = none ∧ plan = none ∨
      event.surface = some .append ∧ plan = some (.append event.seq) ∨
      ∃ start stop startIdx endIdx shadowed, event.surface = some (.replace start stop) ∧
        replacementRange state start stop = .ok (startIdx, endIdx, shadowed) ∧
        plan = some (.replace ⟨event.seq, start, stop, shadowed⟩ startIdx endIdx)) := by
  rw [planNext, planSurfaceEvent, event.json_seq] at h
  by_cases hseq : event.seq = log.length
  · rw [hseq, if_neg (by simp)] at h
    refine ⟨hseq, ?_⟩
    rw [toSeq_integer] at h
    split at h
    case h_1 => simp at h
    case h_2 hop =>
      exact Or.inl ⟨surface_of_surfaceOpOf hop, (Except.ok.inj h).symm⟩
    case h_3 hop =>
      obtain ⟨-, -, rfl⟩ := Replay.map_eq_ok.mp h
      exact Or.inr (Or.inl ⟨surface_of_surfaceOpOf hop, by rw [hseq]⟩)
    case h_4 start stop hop =>
      obtain ⟨⟨startIdx, endIdx, shadowed⟩, hrange, h⟩ := Replay.bind_eq_ok.mp h
      obtain ⟨-, -, h⟩ := Replay.bind_eq_ok.mp h
      obtain ⟨-, -, rfl⟩ := Replay.map_eq_ok.mp h
      exact Or.inr (Or.inr ⟨start, stop, startIdx, endIdx, shadowed, surface_of_surfaceOpOf hop,
        hrange, by rw [hseq]⟩)
  · rw [if_pos (by simpa using hseq)] at h
    simp at h

/-- Nodes are found by their seqs. -/
theorem findIdx?_seq (nodes : List TokenSurfaceNode) (seq : ℕ) :
    nodes.findIdx? (·.seq = seq) = (nodes.map (·.seq)).idxOf? seq := by
  induction nodes with
  | nil => rfl
  | cons node nodes ih =>
    rw [List.findIdx?_cons, List.map_cons, List.idxOf?_cons, ih]
    by_cases hseq : node.seq = seq
    · simp [hseq]
    · simp [hseq]

theorem nodeTokens_append (nodes nodes' : List TokenSurfaceNode) :
    nodeTokens (nodes ++ nodes') = nodeTokens nodes + nodeTokens nodes' := by
  rw [nodeTokens, List.map_append, List.sum_append]
  rfl

/-- A range that is cut out takes its price along. -/
theorem nodeTokens_range (nodes : List TokenSurfaceNode) {startIdx endIdx : ℕ}
    (h : startIdx ≤ endIdx) :
    nodeTokens (nodes.take startIdx) + nodeTokens (nodeRange nodes startIdx endIdx)
      + nodeTokens (nodes.drop (endIdx + 1)) = nodeTokens nodes := by
  have hdrop : nodes.drop (endIdx + 1) = (nodes.drop startIdx).drop (endIdx + 1 - startIdx) := by
    rw [List.drop_drop]
    congr 1
    omega
  rw [hdrop, nodeRange, ← nodeTokens_append, ← nodeTokens_append, List.append_assoc,
    List.take_append_drop, List.take_append_drop]

/-! ## Accepting events -/

theorem meterAfter_concat (log : List MeterEvent) (event : MeterEvent) :
    meterAfter (log ++ [event])
      = (meterAfter log).bind fun state ↦ foldEvent log state event := by
  rw [meterAfter, Replay.replay_concat]
  congr 1
  funext state
  rw [Replay.take]
  rcases foldEvent log state event with fault | next
  · rfl
  · rfl

theorem openStep_concat (log : List MeterEvent) (event : MeterEvent) :
    openStep (log ++ [event]) = match event.data with
      | .stepStart turn step => some (turn, step)
      | .stepEnd _ _ => none
      | _ => openStep log := by
  rw [openStep, List.foldl_concat]
  rfl

theorem hasHeader_concat (log : List MeterEvent) (event : MeterEvent) :
    hasHeader (log ++ [event]) = match event.data with
      | .requestHeader _ => true
      | _ => hasHeader log := by
  rw [hasHeader, List.foldl_concat]
  rfl

/-- Sources that are distinct earlier chunks of the step are assembled. -/
theorem assembleSources_eq {log : List MeterEvent} {turn step : ℕ} {sources : List ℕ} :
    ∀ {seen : List ℕ} {chunks : List StreamChunk} (a : BlockAssembler),
      (∀ source ∈ sources, source ∉ seen) → sources.Nodup →
      sources.mapM (fun source ↦ log[source]?.bind (·.chunkOf turn step)) = some chunks →
      assembleSources log log.length turn step sources seen a
        = .ok (chunks.foldl BlockAssembler.push a) := by
  induction sources with
  | nil =>
    intro seen chunks a _ _ hchunks
    rw [List.mapM_nil] at hchunks
    obtain rfl := Option.some.inj hchunks
    rfl
  | cons source sources ih =>
    intro seen chunks a hseen hnodup hchunks
    rw [List.mapM_cons] at hchunks
    obtain ⟨chunk, hchunk, hrest⟩ := Option.bind_eq_some_iff.mp hchunks
    obtain ⟨others, hothers, hcons⟩ := Option.bind_eq_some_iff.mp hrest
    obtain rfl : chunks = chunk :: others := (Option.some.inj hcons).symm
    obtain ⟨event, hevent, hof⟩ := Option.bind_eq_some_iff.mp hchunk
    have hdata : event.data = .assistantChunk turn step chunk := by
      rw [MeterEvent.chunkOf] at hof
      split at hof
      case h_1 turn' step' chunk' heq =>
        split_ifs at hof with hsame
        rw [heq, hsame.1, hsame.2, Option.some.inj hof]
      case h_2 => simp at hof
    have hlt : source < log.length := (List.getElem?_eq_some_iff.mp hevent).1
    rw [List.nodup_cons] at hnodup
    rw [assembleSources, if_neg (by omega), if_neg (hseen source List.mem_cons_self), hevent,
      Option.map_some, hdata]
    simp only [ne_eq, not_true_eq_false, or_self, if_false]
    apply ih
    · intro other hother hmem
      rcases List.mem_cons.mp hmem with rfl | hmem
      · exact hnodup.1 hother
      · exact hseen other (List.mem_cons_of_mem _ hother) hmem
    · exact hnodup.2
    · exact hothers

theorem estimateProviderAssistant_ok {log : List MeterEvent} {event : MeterEvent} {turn step : ℕ}
    (hseq : event.seq = log.length) (h : CitesStep log event turn step) :
    ∃ tokens, estimateProviderAssistant log event turn step = .ok tokens := by
  rw [estimateProviderAssistant]
  rcases hsources : event.sourceEventSeqs with _ | sources
  · exact ⟨_, rfl⟩
  · obtain ⟨hnodup, chunks, hchunks, hblocks⟩ := h sources hsources
    have hassembled := assembleSources_eq .new (fun _ _ ↦ List.not_mem_nil) hnodup hchunks
    obtain ⟨blocks, hsome⟩ := Option.isSome_iff_exists.mp hblocks
    rw [hseq]
    simp only [hassembled, hsome]
    rcases blocks with _ | ⟨block, blocks⟩
    · exact ⟨_, rfl⟩
    · exact ⟨_, rfl⟩

/-- What ties the meter's state to a log. -/
structure MeterInv (log : List MeterEvent) (state : SurfaceFoldState) (replay : ReplayState) :
    Prop where
  seqs : replay.surface.map (·.seq) = state.nodes
  prices : ∀ node ∈ replay.surface, ∃ event, log[node.seq]? = some event ∧
    node.tokens = eventTokens event
  total : replay.surfaceTokens = nodeTokens replay.surface
  step : replay.stepStart.map (fun start ↦ (start.turn, start.step)) = openStep log
  header : replay.header.isSome = hasHeader log

/-- The surface part of `_foldEvent`. -/
def nextSurface (replay : ReplayState) (event : MeterEvent) :
    Except MeterFault (List TokenSurfaceNode × ℤ) :=
  match event.surface with
  | none => .ok (replay.surface, replay.surfaceTokens)
  | some op => (foldSurfaceTokens replay.surface event op).map fun surface ↦
      (surface.nodes, replay.surfaceTokens + surface.deltaTokens)

/-- `_foldEvent` accepts when its parts do. -/
theorem foldEvent_eq_ok {log : List MeterEvent} {replay : ReplayState} {event : MeterEvent}
    {stepStart : Option StepStart} {anchor : Option MeasurementAnchor}
    {nodes : List TokenSurfaceNode} {total : ℤ} (hstep : nextStepStart replay event = .ok stepStart)
    (hsurface : nextSurface replay event = .ok (nodes, total))
    (hanchor : nextAnchor log replay (nextHeader replay event) event = .ok anchor) :
    foldEvent log replay event
      = .ok ⟨nextHeader replay event, nodes, total, stepStart, anchor⟩ := by
  rw [nextSurface] at hsurface
  rw [foldEvent, hstep]
  rcases hop : event.surface with _ | op
  · rw [hop] at hsurface
    obtain ⟨rfl, rfl⟩ := Prod.mk.inj (Except.ok.inj hsurface)
    simp only [hanchor]
    rfl
  · rw [hop] at hsurface
    obtain ⟨surface, hfold, hpair⟩ := Replay.map_eq_ok.mp hsurface
    obtain ⟨rfl, rfl⟩ := Prod.mk.inj hpair
    simp only [hfold, hanchor]
    rfl

section Accept

variable {log : List MeterEvent} {state : SurfaceFoldState} {replay : ReplayState}
  {event : MeterEvent}

theorem MeterInv.nextStepStart (h : MeterInv log state replay) (hfits : FitsSteps log event) :
    ∃ stepStart, nextStepStart replay event = .ok stepStart ∧
      stepStart.map (fun start ↦ (start.turn, start.step)) = openStep (log ++ [event]) := by
  have hopen := h.step
  rw [Tokens.nextStepStart, openStep_concat]
  rw [FitsSteps] at hfits
  split at hfits
  case h_1 turn step hdata =>
    rw [hfits, Option.map_eq_none_iff] at hopen
    simp only [hdata, hopen]
    exact ⟨_, rfl, rfl⟩
  case h_2 turn step hdata =>
    rw [hfits] at hopen
    obtain ⟨start, hstart, hpair⟩ := Option.map_eq_some_iff.mp hopen
    obtain ⟨rfl, rfl⟩ := Prod.mk.inj hpair
    simp only [hdata, hstart]
    exact ⟨none, by simp, rfl⟩
  case h_3 turn step message usage hdata =>
    simp only [hdata]
    exact ⟨_, rfl, hopen⟩
  case h_4 hstart hend hassistant =>
    generalize event.data = data at *
    rcases data
    case stepStart turn step => exact absurd rfl (hstart turn step)
    case stepEnd turn step => exact absurd rfl (hend turn step)
    all_goals exact ⟨_, rfl, hopen⟩

theorem MeterInv.nextAnchor (h : MeterInv log state replay) (hseq : event.seq = log.length)
    (hfits : FitsSteps log event) :
    ∃ anchor, nextAnchor log replay (nextHeader replay event) event = .ok anchor := by
  rw [Tokens.nextAnchor]
  split
  case h_1 turn step message usage hdata =>
    rw [FitsSteps, hdata] at hfits
    obtain ⟨hopen, hcites⟩ := hfits
    have hstep := h.step
    rw [hopen] at hstep
    obtain ⟨start, hstart, hpair⟩ := Option.map_eq_some_iff.mp hstep
    obtain ⟨rfl, rfl⟩ := Prod.mk.inj hpair
    have hheader : nextHeader replay event = replay.header := by rw [nextHeader, hdata]
    rw [hstart, Option.filter_some, if_pos (by simp), hheader]
    rcases usage with _ | usage
    · exact ⟨_, rfl⟩
    · rcases hlogged : replay.header with _ | header
      · exact ⟨_, rfl⟩
      · have hhas : hasHeader log = true := by rw [← h.header, hlogged]; rfl
        obtain ⟨tokens, htokens⟩ := estimateProviderAssistant_ok hseq (hcites rfl hhas)
        simp only [anchorOf, htokens]
        exact ⟨_, rfl⟩
  case h_2 => exact ⟨_, rfl⟩

theorem MeterInv.nextHeader (h : MeterInv log state replay) :
    (nextHeader replay event).isSome = hasHeader (log ++ [event]) := by
  rw [Tokens.nextHeader, hasHeader_concat]
  cases event.data <;> simp [h.header]

/-- The price of a node does not change when the log grows. -/
theorem MeterInv.prices_append (h : MeterInv log state replay) :
    ∀ node ∈ replay.surface, ∃ found, (log ++ [event])[node.seq]? = some found ∧
      node.tokens = eventTokens found := by
  intro node hnode
  obtain ⟨found, hfound, hprice⟩ := h.prices node hnode
  have hlt := (List.getElem?_eq_some_iff.mp hfound).1
  exact ⟨found, by rw [List.getElem?_append_left hlt, hfound], hprice⟩

/-- **The meter places an accepted event as the surface fold does**, and its delta is what the nodes
gain. -/
theorem MeterInv.nextSurface (h : MeterInv log state replay) {plan : Option SurfacePlan}
    (hplan : planNext state (log.map (·.json)) event.json = .ok plan) :
    ∃ nodes total, nextSurface replay event = .ok (nodes, total) ∧
      nodes.map (·.seq) = (commitPlan state plan).nodes ∧
      (∀ node ∈ nodes, ∃ found, (log ++ [event])[node.seq]? = some found ∧
        node.tokens = eventTokens found) ∧
      total = nodeTokens nodes := by
  obtain ⟨hseq, hcases⟩ := plan_of_accepted hplan
  rw [List.length_map] at hseq
  have hnew : ∃ found, (log ++ [event])[event.seq]? = some found ∧
      eventTokens event = eventTokens found := by
    refine ⟨event, ?_, rfl⟩
    rw [hseq, List.getElem?_concat_length]
  rw [Tokens.nextSurface]
  rcases hcases with ⟨hop, rfl⟩ | ⟨hop, rfl⟩ |
    ⟨start, stop, startIdx, endIdx, shadowed, hop, hrange, rfl⟩
  · rw [hop]
    exact ⟨_, _, rfl, h.seqs, h.prices_append, h.total⟩
  · rw [hop]
    refine ⟨_, _, rfl, ?_, ?_, ?_⟩
    · rw [List.map_append, h.seqs]
      rfl
    · intro node hnode
      rcases List.mem_append.mp hnode with hold | hlast
      · exact h.prices_append node hold
      · rw [List.mem_singleton.mp hlast]
        exact hnew
    · rw [h.total, nodeTokens_append]
      simp [nodeTokens]
  · rw [replacementRange] at hrange
    rw [hop]
    simp only [foldSurfaceTokens, findIdx?_seq, h.seqs]
    split at hrange
    case h_1 => simp at hrange
    case h_2 => simp at hrange
    case h_3 i j hi hj =>
      split_ifs at hrange with hreversed
      obtain ⟨rfl, hpair⟩ := Prod.mk.inj (Except.ok.inj hrange)
      obtain ⟨rfl, -⟩ := Prod.mk.inj hpair
      simp only [hi, hj, if_neg hreversed]
      refine ⟨_, _, rfl, ?_, ?_, ?_⟩
      · rw [List.map_append, List.map_cons, List.map_take, List.map_drop, h.seqs]
        rfl
      · intro node hnode
        rcases List.mem_append.mp hnode with hold | hrest
        · exact h.prices_append node (List.mem_of_mem_take hold)
        · rcases List.mem_cons.mp hrest with rfl | hold
          · exact hnew
          · exact h.prices_append node (List.mem_of_mem_drop hold)
      · have hcut := nodeTokens_range replay.surface (Nat.le_of_not_lt hreversed)
        have hcons : nodeTokens (⟨event.seq, eventTokens event⟩ :: replay.surface.drop (j + 1))
            = eventTokens event + nodeTokens (replay.surface.drop (j + 1)) := rfl
        simp only [h.total, nodeTokens_append, hcons]
        omega

end Accept

end XxAgent.Tokens
