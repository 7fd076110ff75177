import XxAgent.Log.Splits
import XxAgent.Tokens.Agreement

/-!
# Pressure of the next request

A measurement stands on the last assistant message of the log: what its request was priced at, and
how the price of the surface has moved since. It is never below the price of the envelope and the
surface, and it is above it only where a provider has reported more.
-/

namespace XxAgent.Tokens

open Ecma

/-! ## Anchors of a log -/

def isRequestHeader (event : MeterEvent) : Bool :=
  match event.data with
  | .requestHeader _ => true
  | _ => false

def isStepStart (event : MeterEvent) : Bool :=
  match event.data with
  | .stepStart _ _ => true
  | _ => false

def isAssistantMessage (event : MeterEvent) : Bool :=
  match event.data with
  | .assistantMessage _ _ _ _ => true
  | _ => false

/-- The envelope that was logged last. -/
def loggedHeader (log : List MeterEvent) : Option EpochHeader :=
  (Log.lastAt isRequestHeader log).bind fun found ↦ match found.2.data with
    | .requestHeader header => some (canonicalHeader header)
    | _ => none

/-- The price of the surface after a log. -/
def livePrice (log : List MeterEvent) : ℕ := surfacePrice log (surfaceNodes log)

/-- The price of the surface where the last step was opened. -/
def stepPrice (log : List MeterEvent) : ℕ :=
  (Log.lastAt isStepStart log).elim 0 fun found ↦ livePrice found.1

/-- The price of what the cited chunks of a step assemble to. -/
def citedPrice (log : List MeterEvent) (sources : List ℕ) (turn step : ℕ) : ℕ :=
  let chunks := sources.filterMap fun source ↦ log[source]?.bind (·.chunkOf turn step)
  match (chunks.foldl BlockAssembler.push .new).blocks with
  | some (block :: blocks) => estimateContent (block :: blocks) + ROLE_OVERHEAD
  | _ => 0

/-- The price of an assistant message: where it reports usage under an envelope, that of the
provider's own output; otherwise that of the durable message. -/
def answerPrice (log : List MeterEvent) (event : MeterEvent) : ℕ :=
  match event.data, event.sourceEventSeqs with
  | .assistantMessage turn step _ (some _), some sources =>
    if (loggedHeader log).isSome then citedPrice log sources turn step else eventTokens event
  | _, _ => eventTokens event

/-- The price of the surface at the last assistant message, with the log before it. -/
def anchorOfLog (log : List MeterEvent) : Option (Option EpochHeader × ℕ) :=
  (Log.lastAt isAssistantMessage log).map fun found ↦
    (loggedHeader found.1, stepPrice found.1 + answerPrice found.1 found.2)

/-- The envelope in force. -/
def headerInForce (log : List MeterEvent) (requestHeader : Option EpochHeader) :
    Option EpochHeader :=
  match requestHeader with
  | none => loggedHeader log
  | some header => some (canonicalHeader header)

/-- The anchor, if its envelope is the one in force. -/
def anchorInForce (log : List MeterEvent) (header : Option EpochHeader) :
    Option (Option EpochHeader × ℕ) :=
  (anchorOfLog log).filter fun anchor ↦ optionalHeaderEquals anchor.1 header

/-- What a measurement under an envelope says of a log. -/
structure TokenMeasurement.Bounds (measured : TokenMeasurement) (log : List MeterEvent)
    (header : Option EpochHeader) : Prop where
  /-- Pressure is never under-estimated. -/
  le : (estimateHeader header : ℤ) + livePrice log ≤ measured.totalTokens
  /-- It is over-estimated only from a provider's usage, under an equal envelope. -/
  eq_or : measured.totalTokens = (estimateHeader header : ℤ) + livePrice log ∨
    (∃ tokens usage, measured.baseline = .usage tokens usage) ∧ (anchorInForce log header).isSome
  /-- The surface has moved since the anchor, if there is one. -/
  delta : measured.surfaceDeltaTokens = (anchorInForce log header).elim 0 fun anchor ↦
    (livePrice log : ℤ) - anchor.2

/-! ## Equal envelopes -/

theorem stringifyElements_congr {xs ys : List Json} (h : xs.map stringify = ys.map stringify) :
    stringifyElements xs = stringifyElements ys := by
  induction xs generalizing ys with
  | nil => rw [List.map_eq_nil_iff.mp h.symm]
  | cons x xs ih =>
    rcases ys with _ | ⟨y, ys⟩
    · simp at h
    · obtain ⟨hhead, htail⟩ := List.cons.inj h
      rw [stringifyElements, stringifyElements, hhead, ih htail]

/-- An array is written as its elements are. -/
theorem stringify_arr_congr {xs ys : List Json} (h : xs.map stringify = ys.map stringify) :
    stringify (.arr xs) = stringify (.arr ys) := by
  rcases xs with _ | ⟨x, xs⟩
  · rw [List.map_eq_nil_iff.mp h.symm]
  · rcases ys with _ | ⟨y, ys⟩
    · simp at h
    · obtain ⟨hhead, htail⟩ := List.cons.inj h
      rw [stringify, stringify, hhead, stringifyElements_congr htail]

/-- Equal envelopes have one price. -/
theorem estimateHeader_congr {a b : Option EpochHeader} (h : optionalHeaderEquals a b = true) :
    estimateHeader a = estimateHeader b := by
  rcases a with _ | a
  · rcases b with _ | b
    · rfl
    · simp [optionalHeaderEquals] at h
  · rcases b with _ | b
    · simp [optionalHeaderEquals] at h
    · simp only [optionalHeaderEquals, headerEquals, Bool.and_eq_true, decide_eq_true_eq] at h
      obtain ⟨⟨-, hsystem⟩, htools⟩ := h
      have hsystems : estimateSystemTokens (some a) = estimateSystemTokens (some b) := by
        rw [estimateSystemTokens, estimateSystemTokens, Option.bind_some, Option.bind_some, hsystem]
      have hprice (header : EpochHeader) : estimateToolsTokens (some header)
          = if (header.tools.getD []).map stringify = [] then 0
            else charTokens (stringify (.arr (header.tools.getD []))) + BLOCK_OVERHEAD := by
        rw [estimateToolsTokens, Option.bind_some]
        rcases header.tools with _ | _ | ⟨tool, tools⟩
        · rfl
        · rfl
        · rfl
      rw [estimateHeader, estimateHeader, hsystems, hprice, hprice, htools,
        stringify_arr_congr htools]

/-! ## Accepted events -/

/-- What `_foldEvent` has accepted. -/
theorem foldEvent_inv {log : List MeterEvent} {replay next : ReplayState} {event : MeterEvent}
    (h : foldEvent log replay event = .ok next) :
    next.header = nextHeader replay event ∧ nextStepStart replay event = .ok next.stepStart ∧
      nextSurface replay event = .ok (next.surface, next.surfaceTokens) ∧
      nextAnchor log replay (nextHeader replay event) event = .ok next.anchor := by
  rw [foldEvent] at h
  rw [nextSurface]
  rcases hstep : nextStepStart replay event with fault | stepStart
  · simp [hstep] at h
  · rcases hop : event.surface with _ | op
    · simp only [hstep, hop] at h
      obtain ⟨anchor, hanchor, rfl⟩ := Replay.map_eq_ok.mp h
      exact ⟨rfl, rfl, rfl, hanchor⟩
    · rcases hfold : foldSurfaceTokens replay.surface event op with fault | surface
      · simp [hstep, hop, hfold] at h
      · simp only [hstep, hop, hfold] at h
        obtain ⟨anchor, hanchor, rfl⟩ := Replay.map_eq_ok.mp h
        exact ⟨rfl, rfl, by simp only [hfold]; rfl, hanchor⟩

/-- Sources that are assembled are chunks of the step. -/
theorem assembleSources_inv {log : List MeterEvent} {seq turn step : ℕ} {sources : List ℕ} :
    ∀ {seen : List ℕ} {a b : BlockAssembler},
      assembleSources log seq turn step sources seen a = .ok b →
      b = (sources.filterMap fun source ↦ log[source]?.bind (·.chunkOf turn step)).foldl
        BlockAssembler.push a := by
  induction sources with
  | nil =>
    intro seen a b h
    exact (Except.ok.inj h).symm
  | cons source sources ih =>
    intro seen a b h
    rw [assembleSources] at h
    split_ifs at h with hlate hseen
    rcases hevent : log[source]? with _ | event
    · rw [hevent] at h
      simp at h
    · rw [hevent, Option.map_some] at h
      split at h
      case h_1 turn' step' chunk hdata =>
        split_ifs at h with hother
        have hsame : turn' = turn ∧ step' = step := by tauto
        have hchunk : event.chunkOf turn step = some chunk := by
          rw [MeterEvent.chunkOf, Option.some.inj hdata]
          exact if_pos hsame
        rw [List.filterMap_cons, hevent, Option.bind_some, hchunk, List.foldl_cons]
        exact ih h
      case h_2 => simp at h

/-- An anchored output is priced from the chunks that the event cites. -/
theorem estimateProviderAssistant_inv {log : List MeterEvent} {event : MeterEvent}
    {turn step tokens : ℕ} (h : estimateProviderAssistant log event turn step = .ok tokens) :
    tokens = event.sourceEventSeqs.elim (eventTokens event) fun sources ↦
      citedPrice log sources turn step := by
  rw [estimateProviderAssistant] at h
  rcases hsources : event.sourceEventSeqs with _ | sources
  · simp only [hsources] at h
    exact (Except.ok.inj h).symm
  · rcases hassembled : assembleSources log event.seq turn step sources [] .new with fault | a
    · simp [hsources, hassembled] at h
    · rw [Option.elim_some, citedPrice, ← assembleSources_inv hassembled]
      rcases hblocks : a.blocks with _ | _ | ⟨block, blocks⟩
      · simp [hsources, hassembled, hblocks] at h
      · simp only [hsources, hassembled, hblocks] at h ⊢
        exact (Except.ok.inj h).symm
      · simp only [hsources, hassembled, hblocks] at h ⊢
        exact (Except.ok.inj h).symm

variable {log : List MeterEvent} {state : SurfaceFoldState} {replay next : ReplayState}
  {event : MeterEvent}

/-- Whatever the meter accepts, its state is tied to the log. -/
theorem MeterInv.concat (h : MeterInv log state replay) {plan : Option SurfacePlan}
    (hplan : planNext state (log.map (·.json)) event.json = .ok plan)
    (hnext : foldEvent log replay event = .ok next) :
    MeterInv (log ++ [event]) (commitPlan state plan) next := by
  obtain ⟨hheader, hstep, hsurface, -⟩ := foldEvent_inv hnext
  obtain ⟨nodes, total, hnodes, hseqs, hprices, htotal⟩ := h.nextSurface hplan
  obtain ⟨rfl, rfl⟩ := Prod.mk.inj (Except.ok.inj (hnodes.symm.trans hsurface))
  refine ⟨hseqs, hprices, htotal, ?_, ?_⟩
  · rw [Tokens.nextStepStart] at hstep
    rw [openStep_concat]
    generalize event.data = data at hstep ⊢
    rcases data
    case stepStart turn step =>
      dsimp only at hstep
      split_ifs at hstep
      rw [← Except.ok.inj hstep]
      rfl
    case stepEnd turn step =>
      dsimp only at hstep
      split_ifs at hstep
      rw [← Except.ok.inj hstep]
      rfl
    all_goals
      rw [← Except.ok.inj hstep]
      exact h.step
  · rw [hheader]
    exact h.nextHeader

theorem MeterInv.livePrice (h : MeterInv log state replay)
    (hafter : surfaceAfter (log.map (·.json)) = .ok state) :
    replay.surfaceTokens = Tokens.livePrice log := by
  rw [Tokens.livePrice, surfaceNodes_eq hafter, ← h.seqs, ← nodeTokens_eq_surfacePrice h.prices]
  exact h.total

/-- The meter's envelope, step and anchor are those of the log. -/
structure AnchorInv (log : List MeterEvent) (replay : ReplayState) : Prop where
  header : replay.header = loggedHeader log
  step : ∀ start ∈ replay.stepStart, start.surfaceTokens = stepPrice log
  anchor : replay.anchor.map (fun anchor ↦ (anchor.header, anchor.surfaceTokens))
    = (anchorOfLog log).map fun anchor ↦ (anchor.1, (anchor.2 : ℤ))
  /-- An anchor is never below the price of its envelope and surface. -/
  baseline : ∀ anchor ∈ replay.anchor,
    anchor.baseline = .estimated (estimateHeader anchor.header + anchor.surfaceTokens) ∨
      ∃ tokens usage, anchor.baseline = .usage tokens usage ∧
        (estimateHeader anchor.header : ℤ) + anchor.surfaceTokens ≤ tokens

theorem anchorInv_nil : AnchorInv [] .initial where
  header := rfl
  step _ h := absurd h (by simp [ReplayState.initial])
  anchor := rfl
  baseline _ h := absurd h (by simp [ReplayState.initial])

theorem loggedHeader_concat (log : List MeterEvent) (event : MeterEvent) :
    loggedHeader (log ++ [event]) = match event.data with
      | .requestHeader header => some (canonicalHeader header)
      | _ => loggedHeader log := by
  rw [loggedHeader, Log.lastAt_concat, isRequestHeader]
  cases hdata : event.data <;> simp [hdata, loggedHeader]

theorem stepPrice_concat (log : List MeterEvent) (event : MeterEvent) :
    stepPrice (log ++ [event]) = match event.data with
      | .stepStart _ _ => livePrice log
      | _ => stepPrice log := by
  rw [stepPrice, Log.lastAt_concat, isStepStart]
  cases event.data <;> rfl

theorem anchorOfLog_concat (log : List MeterEvent) (event : MeterEvent) :
    anchorOfLog (log ++ [event]) = match event.data with
      | .assistantMessage _ _ _ _ =>
        some (loggedHeader log, stepPrice log + answerPrice log event)
      | _ => anchorOfLog log := by
  rw [anchorOfLog, Log.lastAt_concat, isAssistantMessage]
  cases event.data <;> rfl

/-- The anchor that an assistant message sets. -/
theorem anchorOf_inv {turn step : ℕ} {message : Message} {usage : Option TokenUsage}
    {start : StepStart} {anchor : MeasurementAnchor}
    (hdata : event.data = .assistantMessage turn step message usage)
    (hturn : start.turn = turn ∧ start.step = step) (hstart : start.surfaceTokens = stepPrice log)
    (h : anchorOf log event start usage (loggedHeader log) = .ok anchor) :
    anchor.header = loggedHeader log ∧
      anchor.surfaceTokens = ((stepPrice log + answerPrice log event : ℕ) : ℤ) ∧
      (anchor.baseline = .estimated (estimateHeader anchor.header + anchor.surfaceTokens) ∨
        ∃ tokens usage, anchor.baseline = .usage tokens usage ∧
          (estimateHeader anchor.header : ℤ) + anchor.surfaceTokens ≤ tokens) := by
  obtain ⟨rfl, rfl⟩ := hturn
  -- Without usage or without an envelope the durable message is priced.
  have hdurable (hplain : anchorOf log event start usage (loggedHeader log)
      = .ok ⟨loggedHeader log, start.surfaceTokens + eventTokens event, .estimated
          (estimateHeader (loggedHeader log) + (start.surfaceTokens + eventTokens event))⟩)
      (hprice : answerPrice log event = eventTokens event) :
      anchor.header = loggedHeader log ∧
        anchor.surfaceTokens = ((stepPrice log + answerPrice log event : ℕ) : ℤ) ∧
        (anchor.baseline = .estimated (estimateHeader anchor.header + anchor.surfaceTokens) ∨
          ∃ tokens usage, anchor.baseline = .usage tokens usage ∧
            (estimateHeader anchor.header : ℤ) + anchor.surfaceTokens ≤ tokens) := by
    obtain rfl := Except.ok.inj (hplain.symm.trans h)
    refine ⟨rfl, ?_, Or.inl rfl⟩
    rw [hprice, hstart]
    push_cast
    rfl
  rcases usage with _ | usage
  · exact hdurable rfl (by rw [answerPrice, hdata])
  · rcases hheader : loggedHeader log with _ | header
    · rw [← hheader]
      apply hdurable (by rw [hheader]; rfl)
      rw [answerPrice, hdata, hheader]
      rcases event.sourceEventSeqs with _ | sources
      · rfl
      · rfl
    · rw [hheader] at h
      obtain ⟨_, hprovider, rfl⟩ := Replay.map_eq_ok.mp h
      obtain ⟨tokens, htokens, hcast⟩ := Replay.bind_eq_ok.mp hprovider
      obtain rfl := Except.ok.inj hcast
      have hprice : tokens = answerPrice log event := by
        rw [estimateProviderAssistant_inv htokens, answerPrice, hdata, hheader]
        rcases event.sourceEventSeqs with _ | sources
        · rfl
        · rfl
      refine ⟨rfl, ?_, ?_⟩
      · simp only [hprice, hstart]
        push_cast
        rfl
      · simp only
        split_ifs with hle
        · exact Or.inr ⟨_, _, rfl, hle⟩
        · exact Or.inl rfl

/-- The anchor behind an event is that of the log. -/
theorem AnchorInv.nextAnchor (h : AnchorInv log replay) {anchor : Option MeasurementAnchor}
    (hanchor : nextAnchor log replay (nextHeader replay event) event = .ok anchor) :
    anchor.map (fun anchor ↦ (anchor.header, anchor.surfaceTokens))
        = (anchorOfLog (log ++ [event])).map (fun anchor ↦ (anchor.1, (anchor.2 : ℤ))) ∧
      ∀ found ∈ anchor,
        found.baseline = .estimated (estimateHeader found.header + found.surfaceTokens) ∨
          ∃ tokens usage, found.baseline = .usage tokens usage ∧
            (estimateHeader found.header : ℤ) + found.surfaceTokens ≤ tokens := by
  rw [Tokens.nextAnchor] at hanchor
  rw [anchorOfLog_concat]
  by_cases hassistant : ∃ turn step message usage,
      event.data = .assistantMessage turn step message usage
  · obtain ⟨turn, step, message, usage, hdata⟩ := hassistant
    have hheader : nextHeader replay event = loggedHeader log := by
      rw [nextHeader, hdata]
      exact h.header
    rw [hdata] at hanchor ⊢
    dsimp only at hanchor ⊢
    rcases hstart : replay.stepStart.filter fun start ↦ start.turn = turn ∧ start.step = step
      with _ | start
    · simp only [hstart] at hanchor
      exact absurd hanchor (by simp)
    · rw [hheader] at hanchor
      simp only [hstart] at hanchor
      obtain ⟨found, hfound, rfl⟩ := Replay.map_eq_ok.mp hanchor
      obtain ⟨hopen, hturn⟩ := Option.filter_eq_some_iff.mp hstart
      obtain ⟨hlogged, hprice, hbaseline⟩ :=
        anchorOf_inv hdata (by simpa using hturn) (h.step start hopen) hfound
      refine ⟨?_, fun other hother ↦ ?_⟩
      · rw [Option.map_some, Option.map_some, hlogged, hprice]
      · rw [← Option.some.inj hother]
        exact hbaseline
  · generalize event.data = data at hanchor hassistant ⊢
    rcases data
    case assistantMessage turn step message usage =>
      exact absurd ⟨turn, step, message, usage, rfl⟩ hassistant
    all_goals
      rw [← Except.ok.inj hanchor]
      exact ⟨by rw [h.anchor], h.baseline⟩

theorem AnchorInv.concat (h : AnchorInv log replay) (hinv : MeterInv log state replay)
    (hafter : surfaceAfter (log.map (·.json)) = .ok state)
    (hnext : foldEvent log replay event = .ok next) : AnchorInv (log ++ [event]) next := by
  obtain ⟨hheader, hstep, -, hanchor⟩ := foldEvent_inv hnext
  have hlogged : nextHeader replay event = loggedHeader (log ++ [event]) := by
    rw [nextHeader, loggedHeader_concat, h.header] <;> cases event.data <;> rfl
  obtain ⟨hanchored, hbaseline⟩ := h.nextAnchor hanchor
  refine ⟨hheader.trans hlogged, ?_, hanchored, hbaseline⟩
  · rw [Tokens.nextStepStart] at hstep
    rw [stepPrice_concat]
    generalize event.data = data at hstep ⊢
    rcases data
    case stepStart turn step =>
      dsimp only at hstep
      split_ifs at hstep
      rw [← Except.ok.inj hstep]
      intro start hstart
      rw [← Option.some.inj hstart]
      exact hinv.livePrice hafter
    case stepEnd turn step =>
      dsimp only at hstep
      split_ifs at hstep
      rw [← Except.ok.inj hstep]
      intro start hstart
      exact absurd hstart (by simp)
    all_goals
      rw [← Except.ok.inj hstep]
      exact h.step

/-! ## Measurements -/

/-- Whatever log the surface fold and the meter accept, the meter's state is that of the log. -/
theorem exists_anchorInv {log : List MeterEvent} :
    ∀ {state : SurfaceFoldState} {replay : ReplayState},
      surfaceAfter (log.map (·.json)) = .ok state → meterAfter log = .ok replay →
        MeterInv log state replay ∧ AnchorInv log replay := by
  induction log using List.reverseRecOn with
  | nil =>
    intro state replay haccepted hmeter
    rw [List.map_nil, surfaceAfter, Replay.replay_nil] at haccepted
    obtain rfl := Except.ok.inj haccepted
    obtain rfl : ReplayState.initial = replay := Except.ok.inj hmeter
    exact ⟨logInv_nil.inv, anchorInv_nil⟩
  | append_singleton log event ih =>
    intro state replay haccepted hmeter
    rw [json_append, surfaceAfter, Replay.replay_concat] at haccepted
    obtain ⟨before, hbefore, htake⟩ := Replay.bind_eq_ok.mp haccepted
    obtain ⟨plan, hplan, rfl⟩ := Replay.map_eq_ok.mp htake
    rw [meterAfter_concat] at hmeter
    obtain ⟨prior, hprior, hnext⟩ := Replay.bind_eq_ok.mp hmeter
    obtain ⟨hinv, hanchors⟩ := ih hbefore hprior
    exact ⟨hinv.concat hplan hnext, hanchors.concat hinv hbefore hnext⟩

/-- What is measured against, in terms of the log. -/
theorem AnchorInv.anchorInForce (h : AnchorInv log replay) (header : Option EpochHeader) :
    (replay.anchor.filter fun anchor ↦ optionalHeaderEquals anchor.header header).map
        (fun anchor ↦ (anchor.header, anchor.surfaceTokens))
      = (anchorInForce log header).map fun anchor ↦ (anchor.1, (anchor.2 : ℤ)) := by
  have hmapped := h.anchor
  rw [Tokens.anchorInForce]
  generalize replay.anchor = kept at hmapped ⊢
  rcases kept with _ | anchor
  · rw [Option.map_none, eq_comm, Option.map_eq_none_iff] at hmapped
    rw [hmapped]
    rfl
  · obtain ⟨logged, hlogged, hpair⟩ := Option.map_eq_some_iff.mp hmapped.symm
    obtain ⟨hheader, hprice⟩ := Prod.mk.inj hpair
    rw [hlogged, Option.filter_some, Option.filter_some, hheader]
    split_ifs
    · rw [Option.map_some, Option.map_some, hheader, hprice]
    · rfl

/-- A measurement of a state that is tied to the log. -/
theorem bounds_measureBaseline (h : AnchorInv log replay)
    (hprice : replay.surfaceTokens = livePrice log) (header : Option EpochHeader)
    {measured : TokenMeasurement}
    (hbaseline : measured.baseline = (measureBaseline replay header).1)
    (hdelta : measured.surfaceDeltaTokens = (measureBaseline replay header).2)
    (htotal : measured.totalTokens
      = max 0 (measured.baseline.tokens + measured.surfaceDeltaTokens)) :
    measured.Bounds log header := by
  have hanchor := h.anchorInForce header
  rw [measureBaseline] at hbaseline hdelta
  rcases hfound : replay.anchor.filter fun anchor ↦ optionalHeaderEquals anchor.header header
    with _ | anchor
  · -- Envelope and surface are priced from scratch.
    rw [hfound, Option.map_none, eq_comm, Option.map_eq_none_iff] at hanchor
    simp only [hfound] at hbaseline hdelta
    have heq : measured.totalTokens = (estimateHeader header : ℤ) + livePrice log := by
      rw [htotal, hbaseline, hdelta, hprice]
      split_ifs with hempty
      · obtain ⟨hnone, hzero⟩ := hempty
        obtain rfl := Option.isNone_iff_eq_none.mp hnone
        rw [hzero]
        rfl
      · simp only [MeasurementBaseline.tokens]
        omega
    refine ⟨heq.ge, Or.inl heq, ?_⟩
    rw [hdelta, hanchor]
    split_ifs
    · rfl
    · rfl
  · rw [hfound, Option.map_some, eq_comm, Option.map_eq_some_iff] at hanchor
    obtain ⟨logged, hlogged, hpair⟩ := hanchor
    obtain ⟨-, hlive⟩ := Prod.mk.inj hpair
    obtain ⟨hmem, hequal⟩ := Option.filter_eq_some_iff.mp hfound
    have hestimate := estimateHeader_congr hequal
    simp only [hfound] at hbaseline hdelta
    have hmoved : measured.surfaceDeltaTokens
        = (anchorInForce log header).elim 0 fun anchor ↦ (livePrice log : ℤ) - anchor.2 := by
      rw [hdelta, hlogged, Option.elim_some, hprice, hlive]
    rcases h.baseline anchor hmem with hestimated | ⟨tokens, usage, husage, hle⟩
    · have heq : measured.totalTokens = (estimateHeader header : ℤ) + livePrice log := by
        rw [htotal, hbaseline, hestimated, MeasurementBaseline.tokens, hdelta, hestimate, hprice]
        omega
      exact ⟨heq.ge, Or.inl heq, hmoved⟩
    · refine ⟨?_, Or.inr ⟨⟨tokens, usage, hbaseline.trans husage⟩, by rw [hlogged]; rfl⟩, hmoved⟩
      rw [htotal, hbaseline, husage, MeasurementBaseline.tokens, hdelta, ← hestimate, hprice]
      omega

/-- **A measurement bounds the pressure of its log.** -/
theorem bounds_measurement {state : MeterState} (h : AnchorInv log state.replay)
    (hprice : state.replay.surfaceTokens = livePrice log) (requestHeader : Option EpochHeader) :
    (measurement state requestHeader).Bounds log (headerInForce log requestHeader) := by
  have hheader : (match requestHeader with
      | none => state.replay.header
      | some header => some (canonicalHeader header)) = headerInForce log requestHeader := by
    rcases requestHeader with _ | header
    · exact h.header
    · rfl
  rw [← hheader]
  exact bounds_measureBaseline h hprice _ rfl rfl rfl

/-! ## Runs -/

/-- Catching up keeps to the log, wherever it ends; without a fault it has consumed everything. -/
theorem syncLoop_kept {rest : List MeterEvent} :
    ∀ {front : List MeterEvent} {replay : ReplayState} {caught : MeterState × Option MeterFault},
      Numbered (front ++ rest) → meterAfter front = .ok replay →
      syncLoop (front ++ rest) ⟨front.length, replay⟩ rest = caught →
      caught.1.consumedEvents ≤ (front ++ rest).length ∧
        meterAfter ((front ++ rest).take caught.1.consumedEvents) = .ok caught.1.replay ∧
        (caught.2 = none → caught.1.consumedEvents = (front ++ rest).length) := by
  induction rest with
  | nil =>
    rintro front replay caught - hreplay rfl
    rw [syncLoop, List.append_nil]
    exact ⟨le_rfl, by rw [List.take_length, hreplay], fun _ ↦ rfl⟩
  | cons event rest ih =>
    rintro front replay caught hnumbered hreplay rfl
    have hlog : front ++ event :: rest = (front ++ [event]) ++ rest := by simp
    have hseq := hnumbered front event rest rfl
    rw [syncLoop, foldEvent_append hseq]
    rcases hfold : foldEvent front replay event with fault | next
    · refine ⟨?_, ?_, ?_⟩
      · simp only [List.length_append]
        omega
      · simp only [List.take_left', hreplay]
      · simp
    · have hnext : meterAfter (front ++ [event]) = .ok next := by
        rw [meterAfter_concat, hreplay]
        exact hfold
      have hstep := ih (hlog ▸ hnumbered) hnext rfl
      rw [List.length_append, List.length_singleton, ← hlog] at hstep
      exact hstep

namespace MeteredSession

variable {s : MeteredSession}

/-- What is left after catching up is kept, and a read without a fault is of the whole log. -/
theorem Kept.caughtUp (h : s.Kept) (hnumbered : Numbered s.log) {state : MeterState}
    {fault : Option MeterFault} (hsync : Tokens.sync s.log s.meter = (state, fault)) :
    state.consumedEvents ≤ s.log.length ∧
      meterAfter (s.log.take state.consumedEvents) = .ok state.replay ∧
      (fault = none → state.consumedEvents = s.log.length) := by
  rw [Tokens.sync] at hsync
  rcases hmeter : s.meter with _ | kept
  · rw [hmeter] at hsync
    have hempty : meterAfter [] = .ok .initial := rfl
    have hwhole : Numbered ([] ++ s.log) := hnumbered
    exact syncLoop_kept hwhole hempty hsync
  · rw [hmeter] at hsync
    obtain ⟨hle, hreplay⟩ := h kept hmeter
    have hsplit := List.take_append_drop kept.consumedEvents s.log
    have hlength : (s.log.take kept.consumedEvents).length = kept.consumedEvents := by
      rw [List.length_take, Nat.min_eq_left hle]
    have hcaughtUp : syncLoop (s.log.take kept.consumedEvents ++ s.log.drop kept.consumedEvents)
        ⟨(s.log.take kept.consumedEvents).length, kept.replay⟩ (s.log.drop kept.consumedEvents)
        = (state, fault) := by
      rw [hsplit, hlength]
      exact hsync
    have hcaught := syncLoop_kept (hsplit.symm ▸ hnumbered) hreplay hcaughtUp
    rw [hsplit] at hcaught
    exact hcaught

/-- Whatever the meter refuses on the way, what it keeps is the state after what it has consumed. -/
theorem Kept.act_of_numbered (h : s.Kept) (action : MeterAction)
    (hnumbered : Numbered (s.act action).log) : (s.act action).Kept := by
  rcases action with event | requestHeader
  · intro state hstate
    obtain ⟨old, hold, rfl⟩ := Option.map_eq_some_iff.mp hstate
    obtain ⟨hle, hreplay⟩ := h old hold
    have hkept : Kept ⟨s.log ++ [event], some old⟩ := by
      intro kept hkept
      obtain rfl := Option.some.inj hkept
      refine ⟨?_, ?_⟩
      · rw [List.length_append]
        omega
      · rw [List.take_append_of_le_length hle, hreplay]
    have hcaught := hkept.caughtUp hnumbered rfl
    exact ⟨hcaught.1, hcaught.2.1⟩
  · intro state hstate
    obtain rfl := Option.some.inj hstate
    have hcaught := h.caughtUp hnumbered rfl
    exact ⟨hcaught.1, hcaught.2.1⟩

theorem Kept.run_of_numbered (h : s.Kept) {actions : List MeterAction}
    (hnumbered : Numbered (s.run actions).log) : (s.run actions).Kept := by
  induction actions generalizing s with
  | nil => exact h
  | cons action actions ih =>
    obtain ⟨back, hlog⟩ := log_run (s.act action) actions
    have hrun : (s.run (action :: actions)).log = (s.act action).log ++ back := hlog
    rw [hrun] at hnumbered
    have hfront : Numbered (s.act action).log := by
      rintro before event after hbefore
      exact hnumbered before event (after ++ back) (by rw [hbefore]; simp)
    exact ih (h.act_of_numbered action hfront) (hlog ▸ hnumbered)

/-- **Request pressure is never under-estimated**, whatever has been appended and measured before:
on every log that the surface fold accepts, a measurement that the meter returns is bounded by the
price of the envelope in force and the surface, over-estimates only from a provider's usage under an
equal envelope, and shows how the surface has moved since the anchor. -/
theorem bounds_run (seed : List MeterEvent) (actions : List MeterAction)
    (haccepted : (run ⟨seed, none⟩ actions).Accepted) (requestHeader : Option EpochHeader)
    {measured : TokenMeasurement}
    (hmeasured : (run ⟨seed, none⟩ actions).measure requestHeader = .ok measured) :
    measured.Bounds (run ⟨seed, none⟩ actions).log
      (headerInForce (run ⟨seed, none⟩ actions).log requestHeader) := by
  obtain ⟨fold, -, hsurface⟩ := haccepted.surface
  have hnumbered := numbered_of_accepted hsurface
  have hkept : (run ⟨seed, none⟩ actions).Kept :=
    Kept.run_of_numbered (fun state hstate ↦ by simp at hstate) hnumbered
  rw [measure] at hmeasured
  rcases hsync : Tokens.sync (run ⟨seed, none⟩ actions).log (run ⟨seed, none⟩ actions).meter
    with ⟨state, _ | fault⟩
  · rw [hsync] at hmeasured
    obtain rfl := Except.ok.inj hmeasured
    obtain ⟨-, hreplay, hall⟩ := hkept.caughtUp hnumbered hsync
    rw [hall rfl, List.take_length] at hreplay
    obtain ⟨hinv, hanchors⟩ := exists_anchorInv hsurface hreplay
    exact bounds_measurement hanchors (hinv.livePrice hsurface) requestHeader
  · rw [hsync] at hmeasured
    simp at hmeasured

/-- A prompt that is replaced is priced anew. -/
theorem bounds_run_pruned : ∃ measured,
    measure (run ⟨[prompt], none⟩ [.append pruning, .measure none, .append pruned]) none
      = .ok measured ∧
    measured.Bounds (run ⟨[prompt], none⟩ [.append pruning, .measure none, .append pruned]).log
      (headerInForce
        (run ⟨[prompt], none⟩ [.append pruning, .measure none, .append pruned]).log none) :=
  ⟨_, rfl, bounds_run [prompt] [.append pruning, .measure none, .append pruned] ⟨_, rfl⟩ none rfl⟩

end MeteredSession

end XxAgent.Tokens
