import XxAgent.Session.StoredEvent

/-!
# Tool-pairing balance over a session surface

Compaction changes surface positions, so safe cuts are derived from tool-call and result content in
current surface order. The balance of every cut is cached for one generation of the surface, and the
cache is extended where the surface has grown.
-/

namespace XxAgent.Compaction

open Ecma

/-- What the balance reads of a session. -/
structure SessionView where
  events : List LogEvent
  surface : SurfaceFoldState

/-- Incremental balance state for one surface generation. -/
structure BalanceCache where
  generation : ℕ
  /-- Entry `i` is the balance of the cut before position `i`, and the last one that behind the
  tail. -/
  cutBalanced : List Bool
  /-- The surface position of each event. -/
  indexBySeq : OrderedMap ℕ ℕ
  inProgressToolCalls : ℤ

inductive PairingFault where
  | noEvent (seq : ℕ)
  | orphanResult (seq : ℕ)
  | notFound (seq : ℕ)
deriving DecidableEq

def PairingFault.message : PairingFault → JsString
  | noEvent seq => js s!"tool-pairing balance: surface seq {seq} has no matching session event" ++
      js " (corrupt surface)"
  | orphanResult seq => js s!"tool-pairing balance: tool/result at surface seq {seq} has no " ++
      js "matching tool-call (corrupt surface)"
  | notFound seq => js s!"tool-pairing balance: surface seq {seq} not found"

/-- How one surface event changes the in-progress tool-call count. -/
def eventDelta (event : LogEvent) : ℤ :=
  match event.data with
  | .assistantMessage _ _ content => (content.filter fun
      | .toolCall _ => true
      | .other _ => false).length
  | .toolResult .. => -1
  | _ => 0

/-- The event named by a surface sequence. -/
def eventForSeq (events : List LogEvent) (seq : ℕ) : Except PairingFault LogEvent :=
  match events[seq]? with
  | none => .error (.noEvent seq)
  | some event => if event.seq ≠ seq then .error (.noEvent seq) else .ok event

/-- The loop of `extendCache`: the count behind the tail, and the balance of the cut behind each
event of it. -/
def pendingCuts (events : List LogEvent) : ℤ → List ℕ → Except PairingFault (ℤ × List Bool)
  | inProgressToolCalls, [] => .ok (inProgressToolCalls, [])
  | inProgressToolCalls, seq :: tail =>
    match eventForSeq events seq with
    | .error fault => .error fault
    | .ok event =>
      let inProgressToolCalls := inProgressToolCalls + eventDelta event
      if inProgressToolCalls < 0 then .error (.orphanResult seq)
      else
        match pendingCuts events inProgressToolCalls tail with
        | .error fault => .error fault
        | .ok (last, cuts) => .ok (last, decide (inProgressToolCalls = 0) :: cuts)

/-- Give the events of a tail their positions. -/
def indexTail : OrderedMap ℕ ℕ → ℕ → List ℕ → OrderedMap ℕ ℕ
  | indexBySeq, _, [] => indexBySeq
  | indexBySeq, position, seq :: tail => indexTail (indexBySeq.set seq position) (position + 1) tail

/-- Fold surface sequences not yet in the cache into its balance state. -/
def extendCache (events : List LogEvent) (cache : BalanceCache) (seqs : List ℕ) :
    Except PairingFault BalanceCache :=
  let processed := cache.cutBalanced.length - 1
  let tail := seqs.drop processed
  match pendingCuts events cache.inProgressToolCalls tail with
  | .error fault => .error fault
  | .ok (last, cuts) => .ok { cache with
      cutBalanced := cache.cutBalanced ++ cuts
      indexBySeq := indexTail cache.indexBySeq processed tail
      inProgressToolCalls := last }

/-- The fold started from the empty-surface state, whose single leading cut is balanced. -/
def rebuildCache (view : SessionView) : Except PairingFault BalanceCache :=
  extendCache view.events ⟨view.surface.replaceGeneration, [true], .empty, 0⟩ view.surface.nodes

/-- Balance state synchronized with the current session surface. -/
def balanceCache (view : SessionView) (cached : Option BalanceCache) :
    Except PairingFault BalanceCache :=
  match cached with
  | none => rebuildCache view
  | some cache =>
    if cache.generation ≠ view.surface.replaceGeneration ∨
        view.surface.nodes.length < cache.cutBalanced.length - 1 then rebuildCache view
    else if cache.cutBalanced.length - 1 < view.surface.nodes.length then
      extendCache view.events cache view.surface.nodes
    else .ok cache

/-- Balance of the cut at a sequence's position plus offset. -/
def cutBalance (cache : BalanceCache) (seq offset : ℕ) : Except PairingFault Bool :=
  match cache.indexBySeq.get? seq with
  | none => .error (.notFound seq)
  | some index =>
    match cache.cutBalanced[index + offset]? with
    | none => .error (.notFound seq)
    | some balanced => .ok balanced

/-- What is cached behind a query, which is nothing new where it fails. -/
def cachedAfter (view : SessionView) (cached : Option BalanceCache) : Option BalanceCache :=
  match balanceCache view cached with
  | .error _ => cached
  | .ok cache => some cache

/-- Whether the cut immediately before a current surface sequence is balanced. -/
def toolPairingBalancedBefore (view : SessionView) (cached : Option BalanceCache) (seq : ℕ) :
    Except PairingFault Bool :=
  match balanceCache view cached with
  | .error fault => .error fault
  | .ok cache => cutBalance cache seq 0

/-- Whether the cut immediately after a current surface sequence is balanced. -/
def toolPairingBalancedAfter (view : SessionView) (cached : Option BalanceCache) (seq : ℕ) :
    Except PairingFault Bool :=
  match balanceCache view cached with
  | .error fault => .error fault
  | .ok cache => cutBalance cache seq 1

/-! ## The balance of a cut -/

/-- The change at a surface sequence. -/
def deltaAt (events : List LogEvent) (seq : ℕ) : ℤ := (events[seq]?.map eventDelta).getD 0

/-- The calls in progress behind surface sequences. -/
def inProgress (events : List LogEvent) (seqs : List ℕ) : ℤ := (seqs.map (deltaAt events)).sum

@[simp] theorem inProgress_nil (events : List LogEvent) : inProgress events [] = 0 := rfl

theorem inProgress_append (events : List LogEvent) (front back : List ℕ) :
    inProgress events (front ++ back) = inProgress events front + inProgress events back := by
  rw [inProgress, List.map_append, List.sum_append, inProgress, inProgress]

theorem inProgress_cons (events : List LogEvent) (seq : ℕ) (tail : List ℕ) :
    inProgress events (seq :: tail) = deltaAt events seq + inProgress events tail := rfl

/-- The first result without a call, where `count` calls are in progress before the tail. -/
def orphanIn (events : List LogEvent) (count : ℤ) : List ℕ → Option ℕ
  | [] => none
  | seq :: tail =>
    if count + deltaAt events seq < 0 then some seq
    else orphanIn events (count + deltaAt events seq) tail

/-- The first result of a surface that has no call before it. -/
def orphan (events : List LogEvent) (nodes : List ℕ) : Option ℕ := orphanIn events 0 nodes

/-- The balance of all cuts behind the first one. -/
def cutsFrom (events : List LogEvent) (count : ℤ) : List ℕ → List Bool
  | [] => []
  | seq :: tail =>
    decide (count + deltaAt events seq = 0) :: cutsFrom events (count + deltaAt events seq) tail

variable {events : List LogEvent}

theorem eventForSeq_eq {seq : ℕ} {e : LogEvent} (h : events[seq]? = some e ∧ e.seq = seq) :
    eventForSeq events seq = .ok e ∧ deltaAt events seq = eventDelta e := by
  rw [eventForSeq, deltaAt, h.1]
  exact ⟨if_neg (not_not.mpr h.2), rfl⟩

/-- The loop stops at the first orphan, and has all cuts where there is none. -/
theorem pendingCuts_eq {tail : List ℕ}
    (hnumbered : ∀ seq ∈ tail, ∃ e, events[seq]? = some e ∧ e.seq = seq) (count : ℤ) :
    pendingCuts events count tail =
      match orphanIn events count tail with
      | some seq => .error (.orphanResult seq)
      | none => .ok (count + inProgress events tail, cutsFrom events count tail) := by
  induction tail generalizing count with
  | nil =>
    rw [pendingCuts, orphanIn, inProgress_nil, Int.add_zero]
    rfl
  | cons seq tail ih =>
    rw [List.forall_mem_cons] at hnumbered
    obtain ⟨e, he⟩ := hnumbered.1
    obtain ⟨hevent, hdelta⟩ := eventForSeq_eq he
    rw [pendingCuts, hevent, orphanIn, hdelta]
    dsimp only
    split_ifs with hnegative
    · rfl
    · rw [ih hnumbered.2]
      cases orphanIn events (count + eventDelta e) tail with
      | some orphaned => rfl
      | none =>
        dsimp only
        rw [inProgress_cons, cutsFrom, hdelta, Int.add_assoc]

theorem length_cutsFrom (events : List LogEvent) (count : ℤ) (tail : List ℕ) :
    (cutsFrom events count tail).length = tail.length := by
  induction tail generalizing count with
  | nil => rfl
  | cons seq tail ih => rw [cutsFrom, List.length_cons, ih, List.length_cons]

theorem cutsFrom_append (count : ℤ) (front back : List ℕ) :
    cutsFrom events count (front ++ back)
      = cutsFrom events count front ++ cutsFrom events (count + inProgress events front) back := by
  induction front generalizing count with
  | nil => simp [cutsFrom]
  | cons seq tail ih =>
    rw [List.cons_append, cutsFrom, cutsFrom, ih, inProgress_cons, Int.add_assoc, List.cons_append]

theorem orphanIn_append (count : ℤ) (front back : List ℕ) :
    orphanIn events count (front ++ back) =
      (orphanIn events count front).or
        (orphanIn events (count + inProgress events front) back) := by
  induction front generalizing count with
  | nil => simp [orphanIn]
  | cons seq tail ih =>
    rw [List.cons_append, orphanIn, orphanIn, inProgress_cons]
    split_ifs
    · rfl
    · rw [ih, Int.add_assoc]

theorem getElem?_cutsFrom (events : List LogEvent) (count : ℤ) (tail : List ℕ) {i : ℕ}
    (hi : i ≤ tail.length) :
    (decide (count = 0) :: cutsFrom events count tail)[i]?
      = some (decide (count + inProgress events (tail.take i) = 0)) := by
  induction tail generalizing count i with
  | nil =>
    obtain rfl := Nat.le_zero.mp hi
    simp
  | cons seq tail ih =>
    cases i with
    | zero => simp
    | succ i =>
      rw [List.getElem?_cons_succ, cutsFrom, ih _ (Nat.le_of_succ_le_succ hi), List.take_succ_cons,
        inProgress_cons, Int.add_assoc]

/-! ## Positions -/

theorem indexTail_append (m : OrderedMap ℕ ℕ) (position : ℕ) (front back : List ℕ) :
    indexTail m position (front ++ back)
      = indexTail (indexTail m position front) (position + front.length) back := by
  induction front generalizing m position with
  | nil => rfl
  | cons seq tail ih =>
    rw [List.cons_append, indexTail, ih, indexTail, List.length_cons, Nat.add_right_comm,
      Nat.add_assoc]

theorem get?_indexTail_of_notMem {tail : List ℕ} {seq : ℕ} (hseq : seq ∉ tail)
    (m : OrderedMap ℕ ℕ) (position : ℕ) : (indexTail m position tail).get? seq = m.get? seq := by
  induction tail generalizing m position with
  | nil => rfl
  | cons a tail ih =>
    rw [List.mem_cons, not_or] at hseq
    rw [indexTail, ih hseq.2, OrderedMap.get?_set, if_neg hseq.1]

/-- The events of a surface are found at their positions. -/
theorem get?_indexTail {tail : List ℕ} (hnodup : tail.Nodup) {i seq : ℕ} (hi : tail[i]? = some seq)
    (m : OrderedMap ℕ ℕ) (position : ℕ) :
    (indexTail m position tail).get? seq = some (position + i) := by
  induction tail generalizing m position i with
  | nil => simp at hi
  | cons a tail ih =>
    rw [List.nodup_cons] at hnodup
    cases i with
    | zero =>
      obtain rfl := Option.some.inj hi
      rw [indexTail, get?_indexTail_of_notMem hnodup.1, OrderedMap.get?_set, if_pos rfl,
        Nat.add_zero]
    | succ i =>
      rw [indexTail, ih hnodup.2 hi]
      congr 1
      omega

/-! ## Rebuilt caches -/

/-- The cache of a surface without orphans. -/
def cacheOf (view : SessionView) : BalanceCache where
  generation := view.surface.replaceGeneration
  cutBalanced := true :: cutsFrom view.events 0 view.surface.nodes
  indexBySeq := indexTail .empty 0 view.surface.nodes
  inProgressToolCalls := inProgress view.events view.surface.nodes

variable {view : SessionView}

theorem rebuildCache_eq (hlog : OnLog view.events view.surface.nodes) :
    rebuildCache view =
      match orphan view.events view.surface.nodes with
      | some seq => .error (.orphanResult seq)
      | none => .ok (cacheOf view) := by
  rw [rebuildCache, extendCache]
  dsimp only [List.length_singleton]
  rw [Nat.sub_self, List.drop_zero, pendingCuts_eq hlog.numbered, orphan]
  cases orphanIn view.events 0 view.surface.nodes with
  | some seq => rfl
  | none =>
    dsimp only
    rw [Int.zero_add]
    rfl

/-- Extending the cache of a beginning of the surface is building it anew. -/
theorem extendCache_cacheOf {nodes tail : List ℕ} {generation : ℕ}
    (hlog : OnLog events (nodes ++ tail)) (horphan : orphan events nodes = none) :
    extendCache events (cacheOf ⟨events, nodes, generation⟩) (nodes ++ tail)
      = rebuildCache ⟨events, nodes ++ tail, generation⟩ := by
  rw [rebuildCache_eq hlog, extendCache, cacheOf]
  dsimp only
  rw [List.length_cons, length_cutsFrom, Nat.add_sub_cancel, List.drop_left,
    pendingCuts_eq fun seq hseq ↦ hlog.numbered seq (List.mem_append_right nodes hseq)]
  rw [orphan] at horphan
  rw [orphan, orphanIn_append, horphan, Option.none_or, Int.zero_add]
  cases orphanIn events (inProgress events nodes) tail with
  | some seq => rfl
  | none =>
    dsimp only
    rw [cacheOf, inProgress_append, cutsFrom_append, indexTail_append, Int.zero_add, Nat.zero_add,
      List.cons_append]

/-- A cut of the cache is balanced where no call is in progress. -/
theorem cutBalance_cacheOf (hnodup : view.surface.nodes.Nodup) {i seq : ℕ}
    (hi : view.surface.nodes[i]? = some seq) {offset : ℕ} (hoffset : offset ≤ 1) :
    cutBalance (cacheOf view) seq offset
      = .ok (decide (inProgress view.events (view.surface.nodes.take (i + offset)) = 0)) := by
  have hlt : i < view.surface.nodes.length := (List.getElem?_eq_some_iff.mp hi).1
  have hle : i + offset ≤ view.surface.nodes.length := by omega
  have hcut := getElem?_cutsFrom view.events 0 view.surface.nodes hle
  rw [Int.zero_add, decide_eq_true rfl] at hcut
  rw [cutBalance, cacheOf]
  dsimp only
  rw [get?_indexTail hnodup hi, Nat.zero_add]
  dsimp only
  rw [hcut]

end XxAgent.Compaction
