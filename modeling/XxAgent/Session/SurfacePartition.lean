import XxAgent.Session.DeepEqual

/-!
# What becomes of every message

An event that joins the surface is either still on it or was replaced, once. The fold with its
history is replayed entry by entry, and what is kept is one permutation: the nodes and everything
that was ever shadowed are the eligible events of the log. A replacement takes a run out of the
nodes and puts it behind what was shadowed before, so however replacements are replaced in turn, no
seq is lost and none counted twice.
-/

namespace XxAgent

open Ecma

/-- Whether the event at a seq can join the surface. -/
def eligibleAt (log : List Json) (seq : ℕ) : Bool :=
  (log[seq]?).any fun event ↦ isSurfaceEligibleType (event.get? "type")

/-- The seqs of the surface-eligible events of a log. -/
def eligibleSeqs (log : List Json) : List ℕ := (List.range log.length).filter (eligibleAt log)

def isToolResult (event : Json) : Bool := event.get? "type" = some (text "tool/result")

theorem eligibleAt_append {log : List Json} {seq : ℕ} (h : seq < log.length) (rest : List Json) :
    eligibleAt (log ++ rest) seq = eligibleAt log seq := by
  rw [eligibleAt, eligibleAt, List.getElem?_append_left h]

theorem eligibleAt_length (log : List Json) (event : Json) :
    eligibleAt (log ++ [event]) log.length = isSurfaceEligibleType (event.get? "type") := by
  rw [eligibleAt, List.getElem?_concat_length]
  rfl

theorem eligibleSeqs_concat (log : List Json) (event : Json) :
    eligibleSeqs (log ++ [event]) = eligibleSeqs log ++
      if isSurfaceEligibleType (event.get? "type") then [log.length] else [] := by
  have hold : (List.range log.length).filter (eligibleAt (log ++ [event])) = eligibleSeqs log :=
    List.filter_congr fun seq hseq ↦ eligibleAt_append (List.mem_range.mp hseq) [event]
  rw [eligibleSeqs, List.length_append, List.length_singleton, List.range_succ, List.filter_append,
    hold, List.filter_singleton, eligibleAt_length, Bool.cond_eq_ite]

theorem nodup_eligibleSeqs (log : List Json) : (eligibleSeqs log).Nodup :=
  List.nodup_range.filter _

theorem mem_eligibleSeqs {log : List Json} {seq : ℕ} :
    seq ∈ eligibleSeqs log ↔ eligibleAt log seq = true := by
  rw [eligibleSeqs, List.mem_filter, List.mem_range, and_iff_right_iff_imp]
  intro h
  rw [eligibleAt, Option.any_eq_true] at h
  obtain ⟨event, hevent, -⟩ := h
  exact (List.getElem?_eq_some_iff.mp hevent).1

/-! ## The fold with its history -/

/-- Plan behind a history. -/
def planHistory (history : SurfaceFoldResult) (log : List Json) (event : Json) :
    Except SurfaceFault (Option SurfacePlan) := planNext history.state log event

/-- The history that a plan leads to. -/
def commitHistory (history : SurfaceFoldResult) (plan : Option SurfacePlan) : SurfaceFoldResult :=
  ⟨(commitPlan history.state plan).nodes,
    history.replacements ++ (applySurfacePlan history.state plan).2.toList⟩

theorem commitHistory_state (history : SurfaceFoldResult) (plan : Option SurfacePlan) :
    (commitHistory history plan).state = commitPlan history.state plan := by
  have hgeneration := commitPlan_replaceGeneration history.state plan
  rw [SurfaceFoldResult.state, commitHistory, List.length_append]
  rw [SurfaceFoldResult.state] at hgeneration ⊢
  rw [← hgeneration]

theorem foldSurfaceLoop_eq_history (rest : List Json) : ∀ (history : SurfaceFoldResult)
    (log : List Json), history.state.Below log.length →
    foldSurfaceLoop (log ++ rest) history.state history.replacements log.length rest =
      Replay.replayFrom planHistory commitHistory history log rest := by
  induction rest with
  | nil => exact fun history log _ ↦ rfl
  | cons event rest ih =>
    intro history log hbelow
    have hplan : planSurfaceEvent history.state event log.length (log ++ event :: rest) 0
        = planHistory history log event :=
      planSurfaceEvent_congr hbelow (fun seq hseq ↦ List.getElem?_append_left hseq) event _
    rw [foldSurfaceLoop, applySurfaceEvent, hplan, Replay.replayFrom, Replay.take]
    cases hp : planHistory history log event with
    | error fault => rfl
    | ok plan =>
      have hlog : log ++ event :: rest = (log ++ [event]) ++ rest := by
        rw [List.append_assoc, List.singleton_append]
      have hlen : log.length + 1 = (log ++ [event]).length := by
        rw [List.length_append, List.length_singleton]
      change foldSurfaceLoop _ (commitPlan history.state plan)
        (commitHistory history plan).replacements _ _ =
          Replay.replayFrom _ _ (commitHistory history plan) _ _
      have hnext : (commitHistory history plan).state.Below (log ++ [event]).length := by
        rw [commitHistory_state, ← hlen]
        exact below_commitPlan hbelow hp
      rw [hlog, hlen, ← commitHistory_state, ih _ _ hnext]

theorem foldSurface_eq_history (log : List Json) :
    foldSurface log = Replay.replay planHistory commitHistory ⟨[], []⟩ log :=
  foldSurfaceLoop_eq_history log ⟨[], []⟩ [] fun _ hseq ↦ absurd hseq List.not_mem_nil

/-! ## What a plan takes -/

theorem eligible_of_surfaceOp {event : Json} {op : Option SurfaceOp}
    (h : surfaceOpOf event = .ok op) :
    isSurfaceEligibleType (event.get? "type") = op.isSome := by
  rw [surfaceOpOf] at h
  by_cases heligible : isSurfaceEligibleType (event.get? "type") = false
  · rw [if_pos heligible] at h
    split_ifs at h
    cases h
    exact heligible
  · rw [if_neg heligible] at h
    rw [Bool.not_eq_false] at heligible
    split_ifs at h
    · cases h
      exact heligible
    · cases h
      exact heligible

/-- A range that is found is a run of the nodes, and not empty. -/
theorem replacementRange_run {state : SurfaceFoldState} {start stop i j : ℕ} {shadowed : List ℕ}
    (h : replacementRange state start stop = .ok (i, j, shadowed)) :
    shadowed ≠ [] ∧ state.nodes = state.nodes.take i ++ (shadowed ++ state.nodes.drop (j + 1)) := by
  rw [replacementRange] at h
  split at h
  case h_1 => cases h
  case h_2 => cases h
  case h_3 startIdx endIdx hstart hend =>
    split_ifs at h with hlt
    cases h
    have hbound : j < state.nodes.length := (List.idxOf?_eq_some_iff.mp hend).1
    constructor
    · rw [ne_eq, ← List.length_eq_zero_iff, List.length_take, List.length_drop]
      omega
    · have hadd : j + 1 = i + (j + 1 - i) := by omega
      have htake : state.nodes.take (j + 1) =
          state.nodes.take i ++ (state.nodes.drop i).take (j + 1 - i) := by
        rw [← List.take_add, ← hadd]
      rw [← List.append_assoc, ← htake, List.take_append_drop]

/-- What planning an event behind a log leads to. -/
inductive Plans (state : SurfaceFoldState) (log : List Json) (event : Json) :
    Option SurfacePlan → Prop
  | skip (h : isSurfaceEligibleType (event.get? "type") = false) : Plans state log event none
  | append (h : isSurfaceEligibleType (event.get? "type") = true) :
      Plans state log event (some (.append log.length))
  | replace {start stop i j : ℕ} {shadowed : List ℕ}
      (h : isSurfaceEligibleType (event.get? "type") = true)
      (range : replacementRange state start stop = .ok (i, j, shadowed))
      (rewrite : assertToolResultRewrite event shadowed log 0 = .ok ()) :
      Plans state log event (some (.replace ⟨log.length, start, stop, shadowed⟩ i j))

theorem plans_of_planNext {state : SurfaceFoldState} {log : List Json} {event : Json}
    {plan : Option SurfacePlan} (h : planNext state log event = .ok plan) :
    Plans state log event plan := by
  rw [planNext, planSurfaceEvent] at h
  simp only at h
  split_ifs at h with hseq
  rw [not_not] at hseq
  rw [hseq] at h
  split at h
  case h_1 => cases h
  case h_2 hop =>
    cases h
    exact .skip (eligible_of_surfaceOp hop)
  case h_3 hop =>
    obtain ⟨-, -, rfl⟩ := Replay.map_eq_ok.mp h
    exact .append (eligible_of_surfaceOp hop)
  case h_4 start stop hop =>
    obtain ⟨⟨i, j, shadowed⟩, hrange, h⟩ := Replay.bind_eq_ok.mp h
    obtain ⟨-, -, h⟩ := Replay.bind_eq_ok.mp h
    obtain ⟨⟨⟩, hrewrite, rfl⟩ := Replay.map_eq_ok.mp h
    exact .replace (eligible_of_surfaceOp hop) hrange hrewrite

/-! ## The partition -/

/-- Everything that was ever shadowed, replacement by replacement. -/
def SurfaceFoldResult.shadowed (r : SurfaceFoldResult) : List ℕ :=
  r.replacements.flatMap SurfaceFoldReplacement.shadowedSeqs

/-- What holds of a replacement: it took a run out of the surface before it, and what rewrites a
tool result rewrites the result of the same call. -/
structure Replaced (log : List Json) (rep : SurfaceFoldReplacement) : Prop where
  earlier : rep.seq < log.length
  eligible : eligibleAt log rep.seq = true
  run : ∃ before, foldSurface (log.take rep.seq) = .ok before ∧ rep.shadowedSeqs ≠ [] ∧
    rep.shadowedSeqs <:+: before.nodes
  rewrite : ∀ seq ∈ rep.shadowedSeqs, ∀ original ∈ log[seq]?, ∀ event ∈ log[rep.seq]?,
    isToolResult original = true → isToolResult event = true →
      SameResult (original.get? "data") (event.get? "data")

theorem Replaced.append {log : List Json} {rep : SurfaceFoldReplacement} (h : Replaced log rep)
    (hshadowed : ∀ seq ∈ rep.shadowedSeqs, seq < log.length) (rest : List Json) :
    Replaced (log ++ rest) rep where
  earlier := h.earlier.trans_le (List.length_append ▸ Nat.le_add_right _ _)
  eligible := (eligibleAt_append h.earlier rest).trans h.eligible
  run := by
    rw [List.take_append_of_le_length (Nat.le_of_lt h.earlier)]
    exact h.run
  rewrite seq hseq := by
    rw [List.getElem?_append_left (hshadowed seq hseq), List.getElem?_append_left h.earlier]
    exact h.rewrite seq hseq

/-- What holds of a fold with its history. -/
structure Partitioned (log : List Json) (r : SurfaceFoldResult) : Prop where
  perm : (r.nodes ++ r.shadowed).Perm (eligibleSeqs log)
  replaced : ∀ rep ∈ r.replacements, Replaced log rep

theorem Partitioned.lt_length {log : List Json} {r : SurfaceFoldResult} (h : Partitioned log r)
    {seq : ℕ} (hseq : seq ∈ r.nodes ++ r.shadowed) : seq < log.length :=
  List.mem_range.mp (List.mem_filter.mp (h.perm.mem_iff.mp hseq)).1

/-- What was replaced stays replaced as it was. -/
theorem Partitioned.replaced_append {log : List Json} {r : SurfaceFoldResult}
    (h : Partitioned log r) (rest : List Json) :
    ∀ rep ∈ r.replacements, Replaced (log ++ rest) rep := by
  intro rep hrep
  refine (h.replaced rep hrep).append (fun seq hseq ↦ h.lt_length ?_) rest
  exact List.mem_append_right _ (List.mem_flatMap.mpr ⟨rep, hrep, hseq⟩)

/-- A rewrite that is let through rewrites the result of the same call. -/
theorem sameResult_of_rewrite {log : List Json} {event : Json} {shadowed : List ℕ}
    (hwf : ∀ e ∈ log, Json.WF e) (h : assertToolResultRewrite event shadowed log 0 = .ok ())
    (hevent : isToolResult event = true) {seq : ℕ} (hseq : seq ∈ shadowed) {original : Json}
    (horiginal : log[seq]? = some original) :
    SameResult (original.get? "data") (event.get? "data") := by
  rw [isToolResult, decide_eq_true_iff] at hevent
  rw [assertToolResultRewrite.eq_def, if_neg (not_not.mpr hevent)] at h
  split at h
  case h_2 => cases h
  case h_1 originalSeq =>
    obtain rfl := List.mem_singleton.mp hseq
    rw [eventAt, if_pos (Nat.zero_le _), Nat.sub_zero, horiginal] at h
    simp only at h
    split_ifs at h
    split at h
    case h_2 => cases h
    case h_1 x y hx hy =>
      split_ifs at h with heq
      refine sameResult_of_withoutContent (fun z hz ↦ ?_) hx hy heq
      exact (hwf original (List.mem_of_getElem? horiginal)).of_get? hz

theorem Partitioned.append {log : List Json} {r : SurfaceFoldResult} (h : Partitioned log r)
    {event : Json} (he : isSurfaceEligibleType (event.get? "type") = true) :
    Partitioned (log ++ [event]) (commitHistory r (some (.append log.length))) where
  perm := by
    have hshadowed : (commitHistory r (some (.append log.length))).shadowed = r.shadowed := by
      rw [SurfaceFoldResult.shadowed, SurfaceFoldResult.shadowed]
      exact congrArg _ (List.append_nil _)
    rw [eligibleSeqs_concat, if_pos he, hshadowed]
    change (r.nodes ++ [log.length] ++ r.shadowed).Perm _
    rw [List.append_assoc]
    refine (List.perm_append_comm.append_left r.nodes).trans ?_
    rw [← List.append_assoc]
    exact h.perm.append_right _
  replaced := by
    intro rep hrep
    rw [commitHistory] at hrep
    refine h.replaced_append [event] rep ?_
    rwa [show (applySurfacePlan r.state (some (.append log.length))).2.toList = [] from rfl,
      List.append_nil] at hrep

theorem Partitioned.skip {log : List Json} {r : SurfaceFoldResult} (h : Partitioned log r)
    {event : Json} (he : isSurfaceEligibleType (event.get? "type") = false) :
    Partitioned (log ++ [event]) (commitHistory r none) := by
  have hsame : commitHistory r none = r := by
    obtain ⟨nodes, replacements⟩ := r
    exact congrArg _ (List.append_nil replacements)
  rw [hsame]
  refine ⟨?_, h.replaced_append [event]⟩
  rw [eligibleSeqs_concat, he, if_neg Bool.false_ne_true, List.append_nil]
  exact h.perm

/-- **A replacement moves a run** from the nodes to what is shadowed. -/
theorem Partitioned.replace {log : List Json} {r : SurfaceFoldResult} (h : Partitioned log r)
    (hfold : foldSurface log = .ok r) (hwf : ∀ e ∈ log, Json.WF e) {event : Json}
    {start stop i j : ℕ} {shadowed : List ℕ}
    (he : isSurfaceEligibleType (event.get? "type") = true)
    (hrange : replacementRange r.state start stop = .ok (i, j, shadowed))
    (hrewrite : assertToolResultRewrite event shadowed log 0 = .ok ()) :
    Partitioned (log ++ [event])
      (commitHistory r (some (.replace ⟨log.length, start, stop, shadowed⟩ i j))) := by
  obtain ⟨hne, hnodes⟩ := replacementRange_run hrange
  change r.nodes = r.nodes.take i ++ (shadowed ++ r.nodes.drop (j + 1)) at hnodes
  have hsub : ∀ seq ∈ shadowed, seq ∈ r.nodes := by
    intro seq hseq
    rw [hnodes]
    exact List.mem_append_right _ (List.mem_append_left _ hseq)
  have hlast : Replaced (log ++ [event]) ⟨log.length, start, stop, shadowed⟩ := by
    refine ⟨?_, (eligibleAt_length log event).trans he, ⟨r, ?_, hne, ?_⟩, ?_⟩
    · rw [List.length_append, List.length_singleton]
      exact Nat.lt_succ_self _
    · rw [List.take_left, hfold]
    · rw [hnodes]
      exact ⟨_, _, List.append_assoc _ _ _⟩
    · intro seq hseq original horiginal e hevent _ htool
      have hlt : seq < log.length := h.lt_length (List.mem_append_left _ (hsub seq hseq))
      rw [List.getElem?_append_left hlt] at horiginal
      rw [List.getElem?_concat_length] at hevent
      cases hevent
      exact sameResult_of_rewrite hwf hrewrite htool hseq horiginal
  constructor
  · have hshadowed : (commitHistory r
        (some (.replace ⟨log.length, start, stop, shadowed⟩ i j))).shadowed =
          r.shadowed ++ shadowed := by
      rw [SurfaceFoldResult.shadowed, commitHistory, List.flatMap_append]
      exact congrArg _ (List.append_nil _)
    rw [eligibleSeqs_concat, if_pos he, hshadowed]
    change (r.nodes.take i ++ log.length :: r.nodes.drop (j + 1) ++ (r.shadowed ++ shadowed)).Perm _
    refine List.Perm.trans ?_ (h.perm.append_right [log.length])
    nth_rewrite 3 [hnodes]
    rw [List.perm_iff_count]
    intro seq
    simp only [List.count_append, List.count_cons]
    simp only [List.count_nil]
    omega
  · intro rep hrep
    rcases List.mem_append.mp hrep with hrep | hrep
    · exact h.replaced_append [event] rep hrep
    · rw [List.mem_singleton.mp hrep]
      exact hlast

theorem partitioned_foldSurface {log : List Json} {r : SurfaceFoldResult}
    (hwf : ∀ e ∈ log, Json.WF e) (h : foldSurface log = .ok r) : Partitioned log r := by
  rw [foldSurface_eq_history] at h
  refine Replay.replay_induction (fun log r ↦ (∀ e ∈ log, Json.WF e) → Partitioned log r)
    (fun _ ↦ ⟨.refl _, fun _ hrep ↦ absurd hrep List.not_mem_nil⟩) ?_ h hwf
  intro r log event plan hfold ih hplan hwf
  have hwf' : ∀ e ∈ log, Json.WF e := fun e he ↦ hwf e (List.mem_append_left _ he)
  cases plans_of_planNext hplan with
  | skip he => exact (ih hwf').skip he
  | append he => exact (ih hwf').append he
  | replace he hrange hrewrite =>
    rw [← foldSurface_eq_history] at hfold
    exact (ih hwf').replace hfold hwf' he hrange hrewrite

/-! ## Each message once -/

/-- In lists without a common or repeated element, an element of one of them is in one only. -/
theorem existsUnique_index {α β : Type*} {f : α → List β} {l : List α} (h : (l.flatMap f).Nodup)
    {b : β} (hb : b ∈ l.flatMap f) : ∃! i : ℕ, ∃ a ∈ l[i]?, b ∈ f a := by
  have hdisjoint := (List.nodup_flatMap.mp h).2
  obtain ⟨a, ha, hba⟩ := List.mem_flatMap.mp hb
  obtain ⟨i, hi⟩ := List.mem_iff_getElem?.mp ha
  refine ⟨i, ⟨a, hi, hba⟩, ?_⟩
  rintro k ⟨c, hk, hbc⟩
  obtain ⟨hilt, rfl⟩ := List.getElem?_eq_some_iff.mp hi
  obtain ⟨hklt, rfl⟩ := List.getElem?_eq_some_iff.mp hk
  rcases Nat.lt_trichotomy k i with hlt | heq | hlt
  · exact absurd hba (List.pairwise_iff_getElem.mp hdisjoint k i hklt hilt hlt hbc)
  · exact heq
  · exact absurd hbc (List.pairwise_iff_getElem.mp hdisjoint i k hilt hklt hlt hba)

/-- The surface of a log, and what became of everything that is not on it any more. -/
structure SurfacePartition (log : List Json) (r : SurfaceFoldResult) : Prop where
  nodup : r.nodes.Nodup
  eligible : ∀ seq ∈ r.nodes, eligibleAt log seq = true
  once : ∀ seq, eligibleAt log seq = true →
    (seq ∈ r.nodes ∧ ∀ rep ∈ r.replacements, seq ∉ rep.shadowedSeqs) ∨
      (seq ∉ r.nodes ∧ ∃! i : ℕ, ∃ rep ∈ r.replacements[i]?, seq ∈ rep.shadowedSeqs)
  replaced : ∀ rep ∈ r.replacements, Replaced log rep

theorem Partitioned.surfacePartition {log : List Json} {r : SurfaceFoldResult}
    (h : Partitioned log r) : SurfacePartition log r := by
  have hnd : (r.nodes ++ r.shadowed).Nodup := h.perm.nodup_iff.mpr (nodup_eligibleSeqs log)
  obtain ⟨hnodes, hshadowed, hdisjoint⟩ := List.nodup_append'.mp hnd
  refine ⟨hnodes, fun seq hseq ↦ ?_, fun seq hseq ↦ ?_, h.replaced⟩
  · exact mem_eligibleSeqs.mp (h.perm.mem_iff.mp (List.mem_append_left _ hseq))
  · rcases List.mem_append.mp (h.perm.mem_iff.mpr (mem_eligibleSeqs.mpr hseq)) with hmem | hmem
    · refine .inl ⟨hmem, fun rep hrep hin ↦ ?_⟩
      exact hdisjoint hmem (List.mem_flatMap.mpr ⟨rep, hrep, hin⟩)
    · exact .inr ⟨fun hin ↦ hdisjoint hin hmem, existsUnique_index hshadowed hmem⟩

/-- **The surface partition.** In every log that folds, each event that joined the surface is on it
or was shadowed by exactly one replacement. -/
theorem foldSurface_partition (log : List SessionEvent) :
    match foldSurface (log.map SessionEvent.json) with
    | .error _ => True
    | .ok r => SurfacePartition (log.map SessionEvent.json) r := by
  have hwf : ∀ e ∈ log.map SessionEvent.json, Json.WF e := by
    intro e he
    obtain ⟨event, -, rfl⟩ := List.mem_map.mp he
    exact event.json_wf
  split
  case h_1 => trivial
  case h_2 r hfold => exact (partitioned_foldSurface hwf hfold).surfacePartition

end XxAgent
