import XxAgent.Compaction.ToolPairing

/-!
# The cached balance

A session appends events, some of which replace what is on the surface, and its balance is asked for
in between. Whatever came before, the cache answers what a rebuild would answer.
-/

namespace XxAgent.Compaction

open Ecma

/-- A session and the balance that is cached for it. -/
structure PairingState where
  events : List StoredEvent
  surface : SurfaceFoldState
  cached : Option BalanceCache

/-- What happens to a session. -/
inductive PairingOp where
  /-- `Session.append`, which throws where the surface does not take the event. -/
  | append (e : StoredEvent)
  /-- Either query of the balance; both synchronize the cache first. -/
  | query

namespace PairingState

def new : PairingState := ⟨[], createFoldState, none⟩

def view (st : PairingState) : SessionView := ⟨typed st.events, st.surface⟩

def query (st : PairingState) : PairingState :=
  { st with cached := cachedAfter st.view st.cached }

def step (st : PairingState) : PairingOp → PairingState
  | .append e =>
    match planNext st.surface (stored st.events) e.json with
    | .error _ => st
    | .ok plan => { st with events := st.events ++ [e], surface := commitPlan st.surface plan }
  | .query => st.query

def run (ops : List PairingOp) : PairingState := ops.foldl step new

/-! ## The invariant -/

end PairingState

/-- A cache is that of a surface which the current one has grown from, if it is of its
generation. -/
def CacheOf (log : List LogEvent) (surface : SurfaceFoldState) (cache : BalanceCache) : Prop :=
  ∃ nodes, (∀ seq ∈ nodes, seq < log.length) ∧ orphan log nodes = none ∧
    cache = cacheOf ⟨log, nodes, cache.generation⟩ ∧
    cache.generation ≤ surface.replaceGeneration ∧
    (cache.generation = surface.replaceGeneration → nodes <+: surface.nodes)

/-- The surface is the fold of the log, and the cache is one of this session. -/
structure Synced (st : PairingState) : Prop where
  fold : surfaceAfter (stored st.events) = .ok st.surface
  onLog : OnLog (typed st.events) st.surface.nodes
  cached : ∀ cache, st.cached = some cache → CacheOf (typed st.events) st.surface cache

/-! ## Growing logs -/

variable {log : List LogEvent} {nodes : List ℕ}

theorem deltaAt_append {seq : ℕ} (hseq : seq < log.length) (rest : List LogEvent) :
    deltaAt (log ++ rest) seq = deltaAt log seq := by
  rw [deltaAt, List.getElem?_append_left hseq, deltaAt]

theorem inProgress_append_log (hnodes : ∀ seq ∈ nodes, seq < log.length) (rest : List LogEvent) :
    inProgress (log ++ rest) nodes = inProgress log nodes := by
  rw [inProgress, inProgress]
  congr 1
  exact List.map_congr_left fun seq hseq ↦ deltaAt_append (hnodes seq hseq) rest

theorem cutsFrom_append_log (hnodes : ∀ seq ∈ nodes, seq < log.length) (rest : List LogEvent)
    (count : ℤ) : cutsFrom (log ++ rest) count nodes = cutsFrom log count nodes := by
  induction nodes generalizing count with
  | nil => rfl
  | cons seq tail ih =>
    rw [List.forall_mem_cons] at hnodes
    rw [cutsFrom, deltaAt_append hnodes.1, ih hnodes.2, cutsFrom]

theorem orphanIn_append_log (hnodes : ∀ seq ∈ nodes, seq < log.length) (rest : List LogEvent)
    (count : ℤ) : orphanIn (log ++ rest) count nodes = orphanIn log count nodes := by
  induction nodes generalizing count with
  | nil => rfl
  | cons seq tail ih =>
    rw [List.forall_mem_cons] at hnodes
    rw [orphanIn, deltaAt_append hnodes.1, ih hnodes.2, orphanIn]

theorem cacheOf_append_log (hnodes : ∀ seq ∈ nodes, seq < log.length) (rest : List LogEvent)
    (generation : ℕ) :
    cacheOf ⟨log ++ rest, nodes, generation⟩ = cacheOf ⟨log, nodes, generation⟩ := by
  rw [cacheOf, cacheOf]
  dsimp only
  rw [cutsFrom_append_log hnodes, inProgress_append_log hnodes]

variable {surface surface' : SurfaceFoldState} {cache : BalanceCache}

/-- An event is logged, and the surface goes on or is rewritten. -/
theorem CacheOf.surfaced (hcache : CacheOf log surface cache) (e : LogEvent) {n : ℕ}
    {op : Option SurfaceOp} (hsurfaced : Surfaced surface n op surface') :
    CacheOf (log ++ [e]) surface' cache := by
  obtain ⟨nodes, hbelow, horphan, hcache, hle, hbegin⟩ := hcache
  have hbelow' : ∀ seq ∈ nodes, seq < (log ++ [e]).length := fun seq hseq ↦
    (hbelow seq hseq).trans_le (by simp)
  refine ⟨nodes, hbelow', ?_, ?_, ?_, ?_⟩
  · rw [orphan, orphanIn_append_log hbelow]
    exact horphan
  · rw [cacheOf_append_log hbelow]
    exact hcache
  · cases hsurfaced with
    | skip => exact hle
    | append => exact hle
    | replace => exact hle.trans (Nat.le_succ _)
  · intro hgeneration
    cases hsurfaced with
    | skip => exact hbegin hgeneration
    | append => exact (hbegin hgeneration).trans (List.prefix_append _ _)
    | replace => exact absurd hgeneration (Nat.ne_of_lt (Nat.lt_succ_of_le hle))

/-! ## Runs -/

variable {st : PairingState}

/-- **The cache answers what a rebuild answers.** -/
theorem Synced.balanceCache_eq (hsynced : Synced st) :
    balanceCache st.view st.cached = rebuildCache st.view := by
  rw [balanceCache.eq_def]
  cases hcached : st.cached with
  | none => rfl
  | some cache =>
    obtain ⟨nodes, -, horphan, hcache, -, hbegin⟩ := hsynced.cached cache hcached
    dsimp only
    split_ifs with hstale hgrown
    · rfl
    · rw [not_or, not_not] at hstale
      obtain ⟨tail, htail⟩ := hbegin hstale.1
      have hlog := hsynced.onLog
      rw [← htail] at hlog
      have hview : st.view = ⟨typed st.events, nodes ++ tail, cache.generation⟩ := by
        rw [PairingState.view, htail, hstale.1]
        rfl
      have hextend := @extendCache_cacheOf _ nodes tail cache.generation hlog horphan
      rw [← hcache] at hextend
      rw [hview]
      exact hextend
    · rw [not_or, not_not, not_lt] at hstale
      obtain ⟨tail, htail⟩ := hbegin hstale.1
      have hlength : cache.cutBalanced.length - 1 = nodes.length := by
        rw [hcache, cacheOf, List.length_cons, length_cutsFrom, Nat.add_sub_cancel]
      have hnil : tail = [] := by
        have := congrArg List.length htail
        rw [List.length_append] at this
        change ¬ cache.cutBalanced.length - 1 < st.surface.nodes.length at hgrown
        exact List.length_eq_zero_iff.mp (by omega)
      subst hnil
      rw [List.append_nil] at htail
      have hview : st.view = ⟨typed st.events, nodes, cache.generation⟩ := by
        rw [PairingState.view, htail, hstale.1]
        rfl
      rw [rebuildCache_eq hsynced.onLog, hview]
      dsimp only
      rw [horphan]
      exact congrArg Except.ok hcache

theorem Synced.query (hsynced : Synced st) : Synced st.query where
  fold := hsynced.fold
  onLog := hsynced.onLog
  cached cache hcached := by
    rw [PairingState.query, cachedAfter, hsynced.balanceCache_eq,
      rebuildCache_eq hsynced.onLog] at hcached
    cases horphan : orphan st.view.events st.view.surface.nodes with
    | some seq =>
      rw [horphan] at hcached
      exact hsynced.cached cache hcached
    | none =>
      rw [horphan] at hcached
      obtain rfl := Option.some.inj hcached
      exact ⟨st.surface.nodes, fun seq hseq ↦ hsynced.onLog.lt_length hseq, horphan, rfl, le_rfl,
        fun _ ↦ List.prefix_refl _⟩

theorem Synced.append (hsynced : Synced st) {e : StoredEvent} {plan : Option SurfacePlan}
    (hplan : planNext st.surface (stored st.events) e.json = .ok plan) :
    Synced { st with events := st.events ++ [e], surface := commitPlan st.surface plan } := by
  obtain ⟨hseq, hsurfaced⟩ := surfaced_of_planNext hplan
  rw [length_stored, ← length_typed] at hseq hsurfaced
  refine ⟨?_, ?_, fun cache hcached ↦ ?_⟩
  · rw [stored_append, surfaceAfter]
    change Replay.replay planNext commitPlan createFoldState (_ ++ [e.json]) = _
    rw [Replay.replay_concat_of_ok hsynced.fold, Replay.take, hplan]
    rfl
  · rw [typed_append]
    exact hsynced.onLog.surfaced hseq hsurfaced
  · rw [typed_append]
    exact (hsynced.cached cache hcached).surfaced e.event hsurfaced

theorem Synced.step (hsynced : Synced st) (op : PairingOp) : Synced (st.step op) := by
  cases op with
  | append e =>
    rw [PairingState.step]
    cases hplan : planNext st.surface (stored st.events) e.json with
    | error fault => exact hsynced
    | ok plan => exact hsynced.append hplan
  | query => exact hsynced.query

theorem synced_run (ops : List PairingOp) : Synced (.run ops) := by
  induction ops using List.reverseRecOn with
  | nil => exact ⟨rfl, ⟨List.nodup_nil, by simp [PairingState.run, PairingState.new,
      createFoldState]⟩, by simp [PairingState.run, PairingState.new]⟩
  | append_singleton ops op ih =>
    rw [PairingState.run, List.foldl_concat]
    exact ih.step op

/-- A log that folds, before anything is asked. -/
theorem synced_of_fold {events : List StoredEvent} {surface : SurfaceFoldState}
    (hfold : surfaceAfter (stored events) = .ok surface) : Synced ⟨events, surface, none⟩ := by
  induction events using List.reverseRecOn generalizing surface with
  | nil =>
    obtain rfl := Except.ok.inj hfold
    exact ⟨rfl, ⟨List.nodup_nil, by simp [createFoldState]⟩, by simp⟩
  | append_singleton front e ih =>
    rw [stored_append, surfaceAfter] at hfold
    obtain ⟨before, hbefore⟩ := Replay.exists_replay_of_append hfold
    change Replay.replay planNext commitPlan createFoldState (_ ++ [e.json]) = _ at hfold
    rw [Replay.replay_concat_of_ok hbefore] at hfold
    obtain ⟨plan, hplan, rfl⟩ := Replay.map_eq_ok.mp hfold
    exact (ih hbefore).append hplan

/-- What a query before a surface position answers. -/
theorem Synced.toolPairingBalancedBefore_eq (hsynced : Synced st) {i seq : ℕ}
    (hi : st.surface.nodes[i]? = some seq) :
    toolPairingBalancedBefore st.view st.cached seq =
      match orphan (typed st.events) st.surface.nodes with
      | some result => .error (.orphanResult result)
      | none => .ok (decide (inProgress (typed st.events) (st.surface.nodes.take i) = 0)) := by
  rw [toolPairingBalancedBefore, hsynced.balanceCache_eq, rebuildCache_eq hsynced.onLog,
    PairingState.view]
  cases orphan (typed st.events) st.surface.nodes with
  | some result => rfl
  | none => exact cutBalance_cacheOf hsynced.onLog.nodup hi (Nat.zero_le 1)

/-- What a query after a surface position answers. -/
theorem Synced.toolPairingBalancedAfter_eq (hsynced : Synced st) {i seq : ℕ}
    (hi : st.surface.nodes[i]? = some seq) :
    toolPairingBalancedAfter st.view st.cached seq =
      match orphan (typed st.events) st.surface.nodes with
      | some result => .error (.orphanResult result)
      | none =>
        .ok (decide (inProgress (typed st.events) (st.surface.nodes.take (i + 1)) = 0)) := by
  rw [toolPairingBalancedAfter, hsynced.balanceCache_eq, rebuildCache_eq hsynced.onLog,
    PairingState.view]
  cases orphan (typed st.events) st.surface.nodes with
  | some result => rfl
  | none => exact cutBalance_cacheOf hsynced.onLog.nodup hi (Nat.le_refl 1)

/-!
## Compaction regions

A compaction replaces a range of the surface. The range is selected from the head up to a priced
recent tail, and never splits a tool call from its result; a requested range is validated before any
work begins.
-/

/-- A surface node and its price. -/
structure PricedNode (M : Type*) where
  seq : ℕ
  tokens : M

inductive RegionFault where
  | pairing (fault : PairingFault)
  | measurement
  | startNotFound (start : ℕ)
  | endNotFound (stop : ℕ)
  | reversed (start startIdx stop endIdx : ℕ)
  | startUnbalanced (start : ℕ)
  | endUnbalanced (stop : ℕ)
deriving DecidableEq

def RegionFault.message : RegionFault → JsString
  | pairing fault => fault.message
  | measurement =>
      js "compaction: token-meter surface does not match the current session surface"
  | startNotFound start => js s!"compactRegion: start seq {start} not found in surface"
  | endNotFound stop => js s!"compactRegion: end seq {stop} not found in surface"
  | reversed start startIdx stop endIdx =>
      js s!"compactRegion: start seq {start} (position {startIdx}) is after end seq {stop} " ++
        js s!"(position {endIdx}) on the surface"
  | startUnbalanced start => js s!"compactRegion: start seq {start} is not a balanced boundary " ++
      js "(would split a step's tool-call/result pair)"
  | endUnbalanced stop => js s!"compactRegion: end seq {stop} is not a balanced boundary " ++
      js "(would split a step, or the step is still open)"

/-! ## Selection -/

section Selection

variable {M : Type*} [Zero M] [Add M] [LE M] [DecidableLE M]

/-- The accumulation of the recent tail, from the last node; what is left of the nodes is reversed.
It ends at the head where the nodes price too little. -/
def retainLoop (retainTokens : M) : List (PricedNode M) → M → ℕ
  | [], _ => 0
  | node :: rest, accumulated =>
    if retainTokens ≤ accumulated + node.tokens then rest.length
    else retainLoop retainTokens rest (accumulated + node.tokens)

/-- The search for a balanced cut, from the last of the nodes given, which are reversed. -/
def balancedLoop : PairingState → List ℕ → Except PairingFault ℕ × PairingState
  | st, [] => (.ok 0, st)
  | st, [_] => (.ok 0, st)
  | st, seq :: rest =>
    match toolPairingBalancedBefore st.view st.cached seq with
    | .error fault => (.error fault, st.query)
    | .ok true => (.ok rest.length, st.query)
    | .ok false => balancedLoop st.query rest

/-- The next head-anchored range, while a priced recent tail is retained. -/
def selectCompactableRange (st : PairingState) (pricedNodes : List (PricedNode M))
    (retainTokens : M) : Except RegionFault (Option (ℕ × ℕ)) × PairingState :=
  let surfaceNodes := st.surface.nodes
  if pricedNodes.length = 0 then (.ok none, st)
  else if surfaceNodes ≠ pricedNodes.map PricedNode.seq then (.error .measurement, st)
  else
    let keepFromIdx := retainLoop retainTokens pricedNodes.reverse 0
    if keepFromIdx = 0 then (.ok none, st)
    else
      match balancedLoop st (surfaceNodes.take (keepFromIdx + 1)).reverse with
      | (.error fault, st) => (.error (.pairing fault), st)
      | (.ok 0, st) => (.ok none, st)
      | (.ok (k + 1), st) => (.ok (some (surfaceNodes.getD 0 0, surfaceNodes.getD k 0)), st)

end Selection

/-! ## Validation -/

structure SurfaceSelection where
  start : ℕ
  stop : ℕ
  startIdx : ℕ
  endIdx : ℕ
  shadowedSeqs : List ℕ
deriving DecidableEq

/-- Validate one requested surface-position span. -/
def validateSurfaceRegion (st : PairingState) (start stop : ℕ) :
    Except RegionFault SurfaceSelection × PairingState :=
  let nodes := st.surface.nodes
  match nodes.idxOf? start, nodes.idxOf? stop with
  | none, _ => (.error (.startNotFound start), st)
  | _, none => (.error (.endNotFound stop), st)
  | some startIdx, some endIdx =>
    if endIdx < startIdx then (.error (.reversed start startIdx stop endIdx), st)
    else
      match toolPairingBalancedBefore st.view st.cached start with
      | .error fault => (.error (.pairing fault), st.query)
      | .ok false => (.error (.startUnbalanced start), st.query)
      | .ok true =>
        match toolPairingBalancedAfter st.query.view st.query.cached stop with
        | .error fault => (.error (.pairing fault), st.query.query)
        | .ok false => (.error (.endUnbalanced stop), st.query.query)
        | .ok true => (.ok ⟨start, stop, startIdx, endIdx,
            (nodes.drop startIdx).take (endIdx + 1 - startIdx)⟩, st.query.query)

/-! ## The recent tail -/

section Tail

variable {M : Type*} [AddCommMonoid M]

/-- What nodes price together. -/
def price (nodes : List (PricedNode M)) : M := (nodes.map PricedNode.tokens).sum

theorem price_append (front back : List (PricedNode M)) :
    price (front ++ back) = price front + price back := by
  rw [price, List.map_append, List.sum_append, price, price]

variable [LinearOrder M]

section Ordered

variable [IsOrderedAddMonoid M]

theorem price_nonneg {nodes : List (PricedNode M)} (h : ∀ node ∈ nodes, 0 ≤ node.tokens) :
    0 ≤ price nodes := by
  refine List.sum_nonneg fun x hx ↦ ?_
  obtain ⟨node, hnode, rfl⟩ := List.mem_map.mp hx
  exact h node hnode

/-- More nodes price at least as much. -/
theorem price_drop_le {nodes : List (PricedNode M)} (h : ∀ node ∈ nodes, 0 ≤ node.tokens)
    {i j : ℕ} (hij : i ≤ j) : price (nodes.drop j) ≤ price (nodes.drop i) := by
  obtain ⟨d, rfl⟩ := Nat.exists_eq_add_of_le hij
  rw [← List.drop_drop]
  calc price ((nodes.drop i).drop d)
      ≤ price ((nodes.drop i).take d) + price ((nodes.drop i).drop d) :=
        le_add_of_nonneg_left (price_nonneg fun node hnode ↦
          h node (List.mem_of_mem_drop (List.mem_of_mem_take hnode)))
    _ = price (nodes.drop i) := by rw [← price_append, List.take_append_drop]

end Ordered

/-- The accumulation stops at the last position from which the nodes price enough. -/
theorem retainLoop_spec (retainTokens : M) (nodes : List (PricedNode M)) (accumulated : M) :
    let k := retainLoop retainTokens nodes.reverse accumulated
    (k = 0 ∨ k < nodes.length ∧ retainTokens ≤ accumulated + price (nodes.drop k)) ∧
      ∀ j, k < j → j < nodes.length → ¬ retainTokens ≤ accumulated + price (nodes.drop j) := by
  induction nodes using List.reverseRecOn generalizing accumulated with
  | nil => simp [retainLoop]
  | append_singleton front node ih =>
    intro k
    have hdrop {j : ℕ} (hj : j ≤ front.length) : accumulated + price ((front ++ [node]).drop j)
        = accumulated + node.tokens + price (front.drop j) := by
      rw [List.drop_append_of_le_length hj, price_append, add_comm (price _), ← add_assoc]
      simp [price]
    by_cases henough : retainTokens ≤ accumulated + node.tokens
    · have hk : k = front.length := by
        change retainLoop retainTokens (front ++ [node]).reverse accumulated = _
        rw [List.reverse_concat, retainLoop, if_pos henough, List.length_reverse]
      rw [hk, List.length_append, List.length_singleton]
      refine ⟨.inr ⟨Nat.lt_succ_self _, ?_⟩, fun j hlow hhigh ↦ absurd hhigh (by omega)⟩
      rw [hdrop le_rfl, List.drop_length]
      simpa [price] using henough
    · have hk : k = retainLoop retainTokens front.reverse (accumulated + node.tokens) := by
        change retainLoop retainTokens (front ++ [node]).reverse accumulated = _
        rw [List.reverse_concat, retainLoop, if_neg henough]
      obtain ⟨hstop, hlater⟩ := ih (accumulated + node.tokens)
      rw [← hk] at hstop hlater
      rw [List.length_append, List.length_singleton]
      constructor
      · rcases hstop with hzero | ⟨hlt, hprice⟩
        · exact .inl hzero
        · exact .inr ⟨by omega, by rwa [hdrop hlt.le]⟩
      · intro j hlow hhigh
        rcases Nat.lt_or_eq_of_le (Nat.le_of_lt_succ hhigh) with hj | rfl
        · rw [hdrop hj.le]
          exact hlater j hlow hj
        · rw [hdrop le_rfl, List.drop_length]
          simpa [price] using henough

end Tail

/-! ## The balanced cut -/

/-- Queries leave the session as it is. -/
theorem balancedLoop_state (hsynced : Synced st) (seqs : List ℕ) :
    Synced (balancedLoop st seqs).2 ∧ (balancedLoop st seqs).2.view = st.view := by
  fun_induction balancedLoop st seqs with
  | case1 st => exact ⟨hsynced, rfl⟩
  | case2 st => exact ⟨hsynced, rfl⟩
  | case3 => exact ⟨hsynced.query, rfl⟩
  | case4 => exact ⟨hsynced.query, rfl⟩
  | case5 st seq rest _ _ ih =>
    obtain ⟨hafter, hview⟩ := ih hsynced.query
    exact ⟨hafter, hview⟩

/-- A cut of the surface is balanced. -/
def BalancedAt (st : PairingState) (k : ℕ) : Prop :=
  inProgress (typed st.events) (st.surface.nodes.take k) = 0

instance (st : PairingState) (k : ℕ) : Decidable (BalancedAt st k) :=
  inferInstanceAs (Decidable (_ = _))

theorem balancedAt_zero (st : PairingState) : BalancedAt st 0 := by
  rw [BalancedAt, List.take_zero, inProgress_nil]

/-- A surface without orphans: the last balanced cut up to `k`. -/
theorem balancedLoop_eq_ok (hsynced : Synced st)
    (horphan : orphan (typed st.events) st.surface.nodes = none) {k : ℕ}
    (hk : k < st.surface.nodes.length) :
    ∃ m, (balancedLoop st (st.surface.nodes.take (k + 1)).reverse).1 = .ok m ∧ m ≤ k ∧
      BalancedAt st m ∧ ∀ j, m < j → j ≤ k → ¬ BalancedAt st j := by
  induction k generalizing st with
  | zero =>
    refine ⟨0, ?_, le_rfl, balancedAt_zero st, fun j hlow hhigh ↦ absurd hhigh (by omega)⟩
    cases hnodes : st.surface.nodes with
    | nil => rfl
    | cons seq rest => rfl
  | succ k ih =>
    have hget : st.surface.nodes[k + 1]? = some st.surface.nodes[k + 1] :=
      List.getElem?_eq_getElem hk
    have hreverse : (st.surface.nodes.take (k + 2)).reverse
        = st.surface.nodes[k + 1] :: (st.surface.nodes.take (k + 1)).reverse := by
      rw [List.take_succ_eq_append_getElem hk, List.reverse_concat]
    have hlength : (st.surface.nodes.take (k + 1)).reverse.length = k + 1 := by
      rw [List.length_reverse, List.length_take]
      omega
    have hquery := hsynced.toolPairingBalancedBefore_eq hget
    rw [horphan] at hquery
    dsimp only at hquery
    rw [hreverse]
    obtain ⟨last, rest, hrest⟩ := List.exists_cons_of_length_eq_add_one hlength
    rw [hrest, balancedLoop, hquery]
    · by_cases hbalanced : BalancedAt st (k + 1)
      · have hdecide : decide (inProgress (typed st.events) (st.surface.nodes.take (k + 1)) = 0)
            = true := decide_eq_true hbalanced
        rw [hdecide]
        dsimp only
        rw [← hrest, hlength]
        exact ⟨k + 1, rfl, le_rfl, hbalanced, fun j hlow hhigh ↦ absurd hhigh (by omega)⟩
      · have hdecide : decide (inProgress (typed st.events) (st.surface.nodes.take (k + 1)) = 0)
            = false := decide_eq_false hbalanced
        rw [hdecide]
        dsimp only
        rw [← hrest]
        obtain ⟨m, hm, hle, hbal, hnone⟩ := ih hsynced.query horphan (Nat.lt_of_succ_lt hk)
        refine ⟨m, hm, hle.trans (Nat.le_succ k), hbal, fun j hlow hhigh ↦ ?_⟩
        rcases Nat.lt_or_eq_of_le hhigh with hj | rfl
        · exact hnone j hlow (Nat.le_of_lt_succ hj)
        · exact hbalanced
    · intro h
      cases h

/-- A surface with an orphan: the first query fails. -/
theorem balancedLoop_eq_error (hsynced : Synced st) {result : ℕ}
    (horphan : orphan (typed st.events) st.surface.nodes = some result) {k : ℕ}
    (hk : k + 1 < st.surface.nodes.length) :
    (balancedLoop st (st.surface.nodes.take (k + 2)).reverse).1
      = .error (.orphanResult result) := by
  have hget : st.surface.nodes[k + 1]? = some st.surface.nodes[k + 1] :=
    List.getElem?_eq_getElem hk
  have hreverse : (st.surface.nodes.take (k + 2)).reverse
      = st.surface.nodes[k + 1] :: (st.surface.nodes.take (k + 1)).reverse := by
    rw [List.take_succ_eq_append_getElem hk, List.reverse_concat]
  have hlength : (st.surface.nodes.take (k + 1)).reverse.length = k + 1 := by
    rw [List.length_reverse, List.length_take]
    omega
  have hquery := hsynced.toolPairingBalancedBefore_eq hget
  rw [horphan] at hquery
  obtain ⟨last, rest, hrest⟩ := List.exists_cons_of_length_eq_add_one hlength
  rw [hreverse, hrest, balancedLoop, hquery]
  intro h
  cases h

/-- A region that is accepted lies between two balanced cuts. -/
theorem validateSurfaceRegion_eq_ok (hsynced : Synced st) {start stop : ℕ}
    {selection : SurfaceSelection} (h : (validateSurfaceRegion st start stop).1 = .ok selection) :
    ∃ i j, st.surface.nodes.idxOf? start = some i ∧ st.surface.nodes.idxOf? stop = some j ∧ i ≤ j ∧
      BalancedAt st i ∧ BalancedAt st (j + 1) ∧ selection =
        ⟨start, stop, i, j, (st.surface.nodes.drop i).take (j + 1 - i)⟩ := by
  rw [validateSurfaceRegion] at h
  cases hstart : st.surface.nodes.idxOf? start with
  | none =>
    rw [hstart] at h
    cases h
  | some i =>
    rw [hstart] at h
    cases hstop : st.surface.nodes.idxOf? stop with
    | none =>
      rw [hstop] at h
      cases h
    | some j =>
      rw [hstop] at h
      dsimp only at h
      have hget {k seq : ℕ} (hk : st.surface.nodes.idxOf? seq = some k) :
          st.surface.nodes[k]? = some seq := by
        obtain ⟨hlt, hseq, -⟩ := List.idxOf?_eq_some_iff.mp hk
        rw [List.getElem?_eq_getElem hlt, hseq]
      have hbefore := hsynced.toolPairingBalancedBefore_eq (hget hstart)
      have hafter := @Synced.toolPairingBalancedAfter_eq _ hsynced.query j stop (hget hstop)
      split_ifs at h with hreversed
      cases horphan : orphan (typed st.events) st.surface.nodes with
      | some result =>
        rw [horphan] at hbefore
        rw [hbefore] at h
        cases h
      | none =>
        have horphan' : orphan (typed st.query.events) st.query.surface.nodes = none := horphan
        rw [horphan] at hbefore
        rw [horphan'] at hafter
        dsimp only at hbefore hafter
        rw [hbefore] at h
        by_cases hi : BalancedAt st i
        · rw [BalancedAt] at hi
          rw [decide_eq_true hi] at h
          dsimp only at h
          rw [hafter] at h
          by_cases hj : BalancedAt st (j + 1)
          · have hj' : inProgress (typed st.query.events)
                (st.query.surface.nodes.take (j + 1)) = 0 := hj
            rw [decide_eq_true hj'] at h
            obtain rfl := Except.ok.inj h
            exact ⟨i, j, rfl, rfl, not_lt.mp hreversed, hi, hj, rfl⟩
          · have hj' : ¬ inProgress (typed st.query.events)
                (st.query.surface.nodes.take (j + 1)) = 0 := hj
            rw [decide_eq_false hj'] at h
            cases h
        · rw [BalancedAt] at hi
          rw [decide_eq_false hi] at h
          cases h

/-! ## Events of runs -/

/-- An event that is appended to the surface. -/
def appended (seq : ℕ) (data : EventData)
    (heligible : isSurfaceEligibleType (some (.str data.type)) = true) : StoredEvent where
  event := { seq := seq, time := .int 0, data := data, surfaceOp := some .append }
  json := .obj [(js "seq", integer seq), (js "type", .str data.type),
    (js "surfaceOp", text "append")]
  seq := rfl
  type := rfl
  op op h := by
    have htype : (Json.obj [(js "seq", integer seq), (js "type", .str data.type),
        (js "surfaceOp", text "append")]).get? "type" = some (.str data.type) := rfl
    have hop : (Json.obj [(js "seq", integer seq), (js "type", .str data.type),
        (js "surfaceOp", text "append")]).get? "surfaceOp" = some (text "append") := rfl
    rw [surfaceOpOf, htype, hop] at h
    simp only [heligible, Bool.true_eq_false, if_false, reduceCtorEq, if_true] at h
    exact Except.ok.inj h

/-- An event that does not join the surface. -/
def logged (seq : ℕ) (data : EventData)
    (hineligible : isSurfaceEligibleType (some (.str data.type)) = false) : StoredEvent where
  event := { seq := seq, time := .int 0, data := data }
  json := .obj [(js "seq", integer seq), (js "type", .str data.type)]
  seq := rfl
  type := rfl
  op op h := by
    have htype : (Json.obj [(js "seq", integer seq), (js "type", .str data.type)]).get? "type"
        = some (.str data.type) := rfl
    have hop : (Json.obj [(js "seq", integer seq), (js "type", .str data.type)]).get? "surfaceOp"
        = none := rfl
    have hsources : (Json.obj [(js "seq", integer seq),
        (js "type", .str data.type)]).get? "sourceEventSeqs" = none := rfl
    rw [surfaceOpOf, htype, hop, hsources] at h
    simp only [hineligible, if_true, Option.isSome_none, Bool.false_eq_true, if_false] at h
    exact Except.ok.inj h

/-- A message of the first step that requests calls. -/
def requestOf (ids : List CallId) : EventData := .assistantMessage 1 1 (ids.map .toolCall)

/-- A message of the user. -/
def prompted (seq : ℕ) : StoredEvent := appended seq .userMessage rfl

/-- The result of a call of the first step. -/
def resultOf (callId : CallId) : EventData :=
  .toolResult 1 1 ⟨js "m", callId, ⟨callId, [], none⟩⟩ none

/-- Such a result on the surface. -/
def resulted (seq : ℕ) (callId : CallId) : StoredEvent := appended seq (resultOf callId) rfl

end XxAgent.Compaction
