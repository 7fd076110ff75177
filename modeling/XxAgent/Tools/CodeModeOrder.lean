import XxAgent.Tools.CodeMode

/-!
# The order of a code run

Calls start and commit in the order of submission, and a call that was exclusive when it started is
alone from its start to the end of its commit. This holds whatever rejects: a stage that rejects
leaves its call in the commit queue, where it blocks later commits and is never overtaken.
-/

namespace XxAgent

namespace DispatchEvent

/-- The call that an event of the lane or of a body is about. -/
def busy : DispatchEvent → Option ℕ
  | start call _ | bodyStart call | bodyEnd call | commitStart call | postExecuted call
  | commitEnd call => some call
  | logged _ | runOver => none

def started? : DispatchEvent → Option ℕ
  | start call _ => some call
  | _ => none

def committed? : DispatchEvent → Option ℕ
  | commitStart call => some call
  | _ => none

def postExecuted? : DispatchEvent → Option ℕ
  | postExecuted call => some call
  | _ => none

def logged? : DispatchEvent → Option ℕ
  | logged call => some call
  | _ => none

end DispatchEvent

namespace CodeRun

variable {s : CodeRun}

def starts (s : CodeRun) : List ℕ := s.trace.filterMap DispatchEvent.started?

def commits (s : CodeRun) : List ℕ := s.trace.filterMap DispatchEvent.committed?

def postExecutions (s : CodeRun) : List ℕ := s.trace.filterMap DispatchEvent.postExecuted?

/-- The calls in line: first those that are committed, then those that wait for it. -/
def line (s : CodeRun) : List ℕ := s.commits ++ s.commitQueue ++ s.pendingQueue

/-- The line is in the order of submission. -/
structure LineInv (s : CodeRun) : Prop where
  line : s.line.Pairwise (· < ·)
  submitted : ∀ n ∈ s.line, n ≤ s.dispatches
  starts : (s.starts ++ s.pendingQueue).Pairwise (· < ·)
  startsSubmitted : ∀ n ∈ s.starts, n ≤ s.dispatches

variable {action : CodeRunAction} {t : CodeRun}

/-- A move that leaves the line and the starts alone. -/
theorem LineInv.of_eq (h : s.LineInv) (hline : t.line = s.line) (hstarts : t.starts = s.starts)
    (hpending : t.pendingQueue = s.pendingQueue) (hdispatches : t.dispatches = s.dispatches) :
    t.LineInv := by
  obtain ⟨h1, h2, h3, h4⟩ := h
  exact ⟨hline ▸ h1, by rw [hline, hdispatches]; exact h2, by rw [hstarts, hpending]; exact h3,
    by rw [hstarts, hdispatches]; exact h4⟩

/-- The head of the queue is taken. -/
theorem LineInv.taken (h : s.LineInv) {head : ℕ} {rest : List ℕ} (mode : ToolExecutionMode)
    (hqueue : s.pendingQueue = head :: rest) :
    (s.taken head rest mode).LineInv ∧ (s.starts ++ head :: rest).Pairwise (· < ·) ∧
      head ≤ s.dispatches := by
  have hline : (s.taken head rest mode).line = s.line := by
    simp [CodeRun.line, CodeRun.taken, commits, hqueue]
  have hstarts := h.starts
  rw [hqueue] at hstarts
  refine ⟨⟨hline ▸ h.line, hline ▸ h.submitted, ?_, h.startsSubmitted⟩, hstarts, ?_⟩
  · exact hstarts.sublist (List.Sublist.append_left (List.sublist_cons_self _ _) _)
  · exact h.submitted head (by simp [CodeRun.line, hqueue])

theorem LineInv.move (h : s.LineInv) (hmove : Move s action t) : t.LineInv := by
  cases hmove with
  | submit hrun =>
    have hnew : ∀ n ∈ s.line, n < s.dispatches + 1 := fun n hn ↦
      Nat.lt_succ_of_le (h.submitted n hn)
    have hline : CodeRun.line { s with
        dispatches := s.dispatches + 1
        pendingQueue := s.pendingQueue ++ [s.dispatches + 1]
        lane := s.lane.woken.driven } = s.line ++ [s.dispatches + 1] := by
      simp [CodeRun.line, commits]
    constructor
    · rw [hline, List.pairwise_append]
      exact ⟨h.line, List.pairwise_singleton _ _, by simpa using hnew⟩
    · rw [hline]
      intro n hn
      rcases List.mem_append.mp hn with hold | hone
      · exact (hnew n hold).le
      · exact (List.mem_singleton.mp hone).le
    · rw [← List.append_assoc, List.pairwise_append]
      refine ⟨h.starts, List.pairwise_singleton _ _, fun n hn m hm ↦ ?_⟩
      rw [List.mem_singleton.mp hm]
      rcases List.mem_append.mp hn with hstart | hpending
      · exact Nat.lt_succ_of_le (h.startsSubmitted n hstart)
      · exact hnew n (List.mem_append_right _ hpending)
    · exact fun n hn ↦ (h.startsSubmitted n hn).trans (Nat.le_succ _)
  | @commit head rest _ _ hlane hqueue hsettled =>
    refine h.of_eq ?_ (by simp [CodeRun.starts, startCommit, DispatchEvent.started?]) rfl rfl
    simp [CodeRun.line, startCommit, commits, hqueue, DispatchEvent.committed?]
  | @abandon head rest _ _ hlane hwaits hqueue hover =>
    have hstarts := h.starts
    rw [hqueue] at hstarts
    have hsub : (s.commits ++ s.commitQueue ++ rest).Sublist s.line := by
      rw [CodeRun.line, hqueue]
      exact List.Sublist.append_left (List.sublist_cons_self _ _) _
    exact ⟨h.line.sublist hsub, fun n hn ↦ h.submitted n (hsub.subset hn),
      hstarts.sublist (List.Sublist.append_left (List.sublist_cons_self _ _) _),
      h.startsSubmitted⟩
  | @start head rest mode _ hlane hwaits hqueue hrun hcapacity =>
    obtain ⟨htaken, hstarts, hhead⟩ := h.taken mode hqueue
    have hnew : CodeRun.starts { s.taken head rest mode with
        lane := .preparing head
        trace := s.trace ++ [.start head mode] } = s.starts ++ [head] := by
      simp [CodeRun.starts, DispatchEvent.started?]
    have hline : CodeRun.line { s.taken head rest mode with
        lane := .preparing head
        trace := s.trace ++ [.start head mode] } = (s.taken head rest mode).line := by
      simp [CodeRun.line, commits, CodeRun.taken, DispatchEvent.committed?]
    constructor
    · exact hline ▸ htaken.line
    · exact hline ▸ htaken.submitted
    · rw [hnew, List.append_assoc]
      exact hstarts
    · rw [hnew]
      intro n hn
      rcases List.mem_append.mp hn with hold | hone
      · exact h.startsSubmitted n hold
      · exact List.mem_singleton.mp hone ▸ hhead
  | @refuse head rest mode hlane hwaits hqueue hrun hcapacity hagent =>
    exact (h.taken mode hqueue).1.of_eq rfl rfl rfl rfl
  | @log call ok hcall =>
    refine h.of_eq ?_ ?_ rfl rfl <;>
      cases ok <;> simp [CodeRun.line, CodeRun.starts, commits, DispatchEvent.started?,
        DispatchEvent.committed?]
  | _ =>
    refine h.of_eq ?_ ?_ rfl rfl <;>
      simp [CodeRun.line, CodeRun.starts, commits, DispatchEvent.started?,
        DispatchEvent.committed?, endCommit,
        CodeRun.postExecuted, quiesce]

/-! ## Stages -/

/-- What is committed has started, and results are finalized in the order of the commits. -/
structure StageInv (s : CodeRun) : Prop where
  postExecuted : s.postExecutions.Pairwise (· < ·)
  postExecutedCommits : ∀ n ∈ s.postExecutions, n ∈ s.commits
  finalizing : ∀ n ∈ s.lane.finalizing?, ∀ m ∈ s.postExecutions, m < n
  committing : ∀ n ∈ s.lane.committing?, n ∈ s.commits
  preparing : ∀ n ∈ s.lane.preparing?, n ∈ s.starts
  settled : ∀ n, s.settled n = true → n ∈ s.starts
  running : ∀ n ∈ s.running, n ∈ s.starts
  committed : ∀ n ∈ s.commits, n ∈ s.starts

/-- Events that start, commit and finalize nothing. -/
def Neutral (trace : List DispatchEvent) : Prop :=
  ∀ e ∈ trace, e.started? = none ∧ e.committed? = none ∧ e.postExecuted? = none

theorem neutral_nil : Neutral [] := by simp [Neutral]

theorem projections_eq {trace : List DispatchEvent} (htrace : t.trace = s.trace ++ trace)
    (hneutral : Neutral trace) :
    t.starts = s.starts ∧ t.commits = s.commits ∧ t.postExecutions = s.postExecutions := by
  have hnone (f : DispatchEvent → Option ℕ) (hf : ∀ e ∈ trace, f e = none) :
      t.trace.filterMap f = s.trace.filterMap f := by
    rw [htrace, List.filterMap_append, List.filterMap_eq_nil_iff.mpr hf, List.append_nil]
  exact ⟨hnone _ fun e he ↦ (hneutral e he).1, hnone _ fun e he ↦ (hneutral e he).2.1,
    hnone _ fun e he ↦ (hneutral e he).2.2⟩

/-- A move that starts, commits and finalizes nothing; what it settles or runs has started. -/
theorem StageInv.of_neutral (h : s.StageInv) {trace : List DispatchEvent}
    (htrace : t.trace = s.trace ++ trace) (hneutral : Neutral trace)
    (hpreparing : ∀ n ∈ t.lane.preparing?, n ∈ s.lane.preparing?)
    (hfinalizing : ∀ n ∈ t.lane.finalizing?, n ∈ s.lane.finalizing?)
    (hcommitting : ∀ n ∈ t.lane.committing?, n ∈ s.lane.committing?)
    (hsettled : ∀ n, t.settled n = true → s.settled n = true ∨ n ∈ s.starts)
    (hrunning : ∀ n ∈ t.running, n ∈ s.running ∨ n ∈ s.starts) : t.StageInv := by
  obtain ⟨hstarts, hcommits, hposts⟩ := projections_eq htrace hneutral
  constructor
  · exact hposts ▸ h.postExecuted
  · rw [hposts, hcommits]
    exact h.postExecutedCommits
  · rw [hposts]
    exact fun n hn ↦ h.finalizing n (hfinalizing n hn)
  · rw [hcommits]
    exact fun n hn ↦ h.committing n (hcommitting n hn)
  · rw [hstarts]
    exact fun n hn ↦ h.preparing n (hpreparing n hn)
  · rw [hstarts]
    exact fun n hn ↦ (hsettled n hn).elim (h.settled n) id
  · rw [hstarts]
    exact fun n hn ↦ (hrunning n hn).elim (h.running n) id
  · rw [hstarts, hcommits]
    exact h.committed

/-- A move of a lane that awaits nothing afterwards. -/
theorem StageInv.of_free (h : s.StageInv) (htrace : t.trace = s.trace)
    (hpreparing : t.lane.preparing? = none) (hcommitting : t.lane.committing? = none)
    (hsettled : t.settled = s.settled) (hrunning : t.running = s.running) : t.StageInv := by
  have hfinalizing : t.lane.finalizing? = none := by
    cases hlane : t.lane <;> simp_all [DriverLane.finalizing?, DriverLane.committing?]
  exact h.of_neutral (by rw [htrace, List.append_nil]) neutral_nil (by simp [hpreparing])
    (by simp [hfinalizing]) (by simp [hcommitting]) (fun n hn ↦ .inl (hsettled ▸ hn))
    fun n hn ↦ .inl (hrunning ▸ hn)

/-- The result that the lane awaits is finalized. -/
theorem StageInv.postExecution (h : s.StageInv) {call : ℕ} (hlane : s.lane = .finalizing call)
    {trace : List DispatchEvent}
    (htrace : t.trace = s.trace ++ .postExecuted call :: trace)
    (hrest : ∀ e ∈ trace, e.postExecuted? = none ∧ e.committed? = none ∧ e.started? = none)
    (hpreparing : t.lane.preparing? = none) (hfinalizing : t.lane.finalizing? = none)
    (hcommitting : ∀ n ∈ t.lane.committing?, n = call) (hsettled : t.settled = s.settled)
    (hrunning : t.running = s.running) : t.StageInv := by
  have hnone (f : DispatchEvent → Option ℕ) (hf : ∀ e ∈ trace, f e = none) :
      trace.filterMap f = [] := List.filterMap_eq_nil_iff.mpr hf
  have hposts : t.postExecutions = s.postExecutions ++ [call] := by
    rw [CodeRun.postExecutions, htrace, List.filterMap_append, List.filterMap_cons,
      hnone _ fun e he ↦ (hrest e he).1]
    rfl
  have hcommits : t.commits = s.commits := by
    rw [CodeRun.commits, htrace, List.filterMap_append, List.filterMap_cons,
      hnone _ fun e he ↦ (hrest e he).2.1]
    exact List.append_nil _
  have hstarts : t.starts = s.starts := by
    rw [CodeRun.starts, htrace, List.filterMap_append, List.filterMap_cons,
      hnone _ fun e he ↦ (hrest e he).2.2]
    exact List.append_nil _
  have hcall : call ∈ s.commits := h.committing call (by simp [hlane, DriverLane.committing?])
  constructor
  · rw [hposts, List.pairwise_append]
    refine ⟨h.postExecuted, List.pairwise_singleton _ _, fun m hm n hn ↦ ?_⟩
    rw [List.mem_singleton.mp hn]
    exact h.finalizing call (by simp [hlane, DriverLane.finalizing?]) m hm
  · rw [hposts, hcommits]
    intro n hn
    rcases List.mem_append.mp hn with hold | hone
    · exact h.postExecutedCommits n hold
    · exact List.mem_singleton.mp hone ▸ hcall
  · simp [hfinalizing]
  · rw [hcommits]
    exact fun n hn ↦ hcommitting n hn ▸ hcall
  · simp [hpreparing]
  · rw [hsettled, hstarts]
    exact h.settled
  · rw [hrunning, hstarts]
    exact h.running
  · rw [hcommits, hstarts]
    exact h.committed

theorem StageInv.move (h : s.StageInv) (hline : s.LineInv) (hmove : Move s action t) :
    t.StageInv := by
  cases hmove with
  | @commit head rest _ _ hlane hqueue hsettled =>
    have hfirst : ∀ m ∈ s.commits, m < head := by
      have hpairwise := hline.line
      rw [CodeRun.line, hqueue, List.append_assoc] at hpairwise
      exact fun m hm ↦ (List.pairwise_append.mp hpairwise).2.2 m hm head (by simp)
    have hcommits : (s.startCommit head rest).commits = s.commits ++ [head] := by
      simp [CodeRun.commits, startCommit, DispatchEvent.committed?]
    have hposts : (s.startCommit head rest).postExecutions = s.postExecutions := by
      simp [CodeRun.postExecutions, startCommit, DispatchEvent.postExecuted?]
    have hstarts : (s.startCommit head rest).starts = s.starts := by
      simp [CodeRun.starts, startCommit, DispatchEvent.started?]
    constructor
    · exact hposts ▸ h.postExecuted
    · rw [hposts, hcommits]
      exact fun n hn ↦ List.mem_append_left _ (h.postExecutedCommits n hn)
    · rw [hposts]
      intro n hn m hm
      obtain rfl : head = n := by simpa [startCommit, DriverLane.finalizing?] using hn
      exact hfirst m (h.postExecutedCommits m hm)
    · rw [hcommits]
      intro n hn
      obtain rfl : head = n := by simpa [startCommit, DriverLane.committing?] using hn
      exact List.mem_append_right _ (List.mem_singleton_self _)
    · simp [startCommit, DriverLane.preparing?]
    · rw [hstarts]
      exact h.settled
    · rw [hstarts]
      exact h.running
    · rw [hstarts, hcommits]
      intro n hn
      rcases List.mem_append.mp hn with hold | hone
      · exact h.committed n hold
      · exact List.mem_singleton.mp hone ▸ h.settled head hsettled
  | @finalize call hlane =>
    have htrace : ((s.postExecuted call).endCommit call).trace
        = s.trace ++ .postExecuted call :: [.commitEnd call] := by
      simp [endCommit, CodeRun.postExecuted]
    exact h.postExecution hlane htrace
      (by simp [DispatchEvent.postExecuted?, DispatchEvent.committed?, DispatchEvent.started?])
      rfl rfl (by simp [endCommit, DriverLane.committing?]) rfl rfl
  | @finalizeFull call hlane =>
    have htrace : (s.postExecuted call).trace = s.trace ++ [.postExecuted call] := rfl
    exact h.postExecution hlane htrace (by simp) rfl rfl (by simp [DriverLane.committing?]) rfl rfl
  | @start head rest mode _ hlane hwaits hqueue hrun hcapacity =>
    have hstarts : CodeRun.starts { s.taken head rest mode with
        lane := .preparing head
        trace := s.trace ++ [.start head mode] } = s.starts ++ [head] := by
      simp [CodeRun.starts, DispatchEvent.started?]
    have hcommits : CodeRun.commits { s.taken head rest mode with
        lane := .preparing head
        trace := s.trace ++ [.start head mode] } = s.commits := by
      simp [CodeRun.commits, DispatchEvent.committed?]
    have hposts : CodeRun.postExecutions { s.taken head rest mode with
        lane := .preparing head
        trace := s.trace ++ [.start head mode] } = s.postExecutions := by
      simp [CodeRun.postExecutions, DispatchEvent.postExecuted?]
    constructor
    · exact hposts ▸ h.postExecuted
    · rw [hposts, hcommits]
      exact h.postExecutedCommits
    · simp [DriverLane.finalizing?]
    · simp [DriverLane.committing?]
    · rw [hstarts]
      simp [DriverLane.preparing?]
    · rw [hstarts]
      exact fun n hn ↦ List.mem_append_left _ (h.settled n hn)
    · rw [hstarts]
      exact fun n hn ↦ List.mem_append_left _ (h.running n hn)
    · rw [hstarts, hcommits]
      exact fun n hn ↦ List.mem_append_left _ (h.committed n hn)
  | @launch call hlane =>
    have hcall : call ∈ s.starts := h.preparing call (by simp [hlane, DriverLane.preparing?])
    refine h.of_neutral rfl ?_ (by simp [DriverLane.preparing?]) (by simp [DriverLane.finalizing?])
      (by simp [DriverLane.committing?]) (fun n hn ↦ .inl hn) fun n hn ↦ ?_
    · simp [Neutral, DispatchEvent.started?, DispatchEvent.committed?, DispatchEvent.postExecuted?]
    · rcases List.mem_append.mp hn with hold | hone
      · exact .inl hold
      · exact .inr (List.mem_singleton.mp hone ▸ hcall)
  | @place call hlane =>
    have hcall : call ∈ s.starts := h.preparing call (by simp [hlane, DriverLane.preparing?])
    refine h.of_neutral (List.append_nil _).symm neutral_nil (by simp [DriverLane.preparing?])
      (by simp [DriverLane.finalizing?]) (by simp [DriverLane.committing?]) (fun n hn ↦ ?_)
      fun n hn ↦ .inl hn
    by_cases hn' : n = call
    · exact .inr (hn' ▸ hcall)
    · have hupdated : Function.update s.settled call true n = true := hn
      rw [Function.update_of_ne hn'] at hupdated
      exact .inl hupdated
  | @bodySettled call ok hcall =>
    refine h.of_neutral rfl ?_ (fun n hn ↦ hn) (fun n hn ↦ hn) (fun n hn ↦ hn) (fun n hn ↦ ?_)
      fun n hn ↦ .inl (List.mem_of_mem_erase hn)
    · simp [Neutral, DispatchEvent.started?, DispatchEvent.committed?, DispatchEvent.postExecuted?]
    · by_cases hn' : n = call
      · exact .inr (hn' ▸ h.running call hcall)
      · refine .inl ?_
        cases ok with
        | false => exact hn
        | true =>
          have hupdated : Function.update s.settled call true n = true := hn
          rwa [Function.update_of_ne hn'] at hupdated
  | stay => exact h
  | submit hrun =>
    exact h.of_neutral (List.append_nil _).symm neutral_nil (by simp) (by simp) (by simp)
      (fun n hn ↦ .inl hn) fun n hn ↦ .inl hn
  | abort hrun =>
    refine h.of_neutral rfl ?_ (fun n hn ↦ hn) (fun n hn ↦ hn) (fun n hn ↦ hn)
      (fun n hn ↦ .inl hn) fun n hn ↦ .inl hn
    simp [Neutral, DispatchEvent.started?, DispatchEvent.committed?, DispatchEvent.postExecuted?]
  | complete hrun =>
    refine h.of_neutral rfl ?_ (by simp) (by simp) (by simp)
      (fun n hn ↦ .inl hn) fun n hn ↦ .inl hn
    simp [Neutral, DispatchEvent.started?, DispatchEvent.committed?, DispatchEvent.postExecuted?]
  | drive =>
    exact h.of_neutral (List.append_nil _).symm neutral_nil (by simp) (by simp) (by simp)
      (fun n hn ↦ .inl hn) fun n hn ↦ .inl hn
  | flightSettled hcall hrunning =>
    exact h.of_neutral (List.append_nil _).symm neutral_nil (by simp) (by simp) (by simp)
      (fun n hn ↦ .inl hn) fun n hn ↦ .inl hn
  | @log call ok hcall =>
    have htrace : (if ok then s.trace ++ [.logged call] else s.trace)
        = s.trace ++ if ok then [.logged call] else [] := by
      cases ok <;> simp
    refine h.of_neutral htrace ?_ (by simp) (by simp) (by simp)
      (fun n hn ↦ .inl hn) fun n hn ↦ .inl hn
    cases ok <;> simp [Neutral, DispatchEvent.started?, DispatchEvent.committed?,
      DispatchEvent.postExecuted?]
  | quiesce hlane hwaits hblocked =>
    refine h.of_free rfl ?_ ?_ rfl rfl <;>
      simp only [quiesce] <;> split_ifs <;> rfl
  | @proceed call hlane =>
    refine h.of_neutral rfl ?_ (by simp [endCommit, DriverLane.preparing?])
      (by simp [endCommit, DriverLane.finalizing?]) (by simp [endCommit, DriverLane.committing?])
      (fun n hn ↦ .inl hn) fun n hn ↦ .inl hn
    simp [Neutral, DispatchEvent.started?, DispatchEvent.committed?, DispatchEvent.postExecuted?]
  | @proceedFull call hlane =>
    refine h.of_neutral (List.append_nil _).symm neutral_nil (by simp [DriverLane.preparing?])
      (by simp [DriverLane.finalizing?]) ?_ (fun n hn ↦ .inl hn) fun n hn ↦ .inl hn
    simp [hlane, DriverLane.committing?]
  | abandon | refuse | reject | failFinalize | failProceed => exact h.of_free rfl rfl rfl rfl rfl

/-! ## The pool -/

/-- The flights, and the bodies in them. -/
structure PoolInv (s : CodeRun) : Prop where
  preparing : ∀ n ∈ s.lane.preparing?, n ∉ s.inFlight ∧ s.inFlight.length < s.maxParallel
  inFlight : s.inFlight.Nodup
  started : ∀ n ∈ s.inFlight, n ∈ s.starts
  bounded : s.inFlight.length ≤ s.maxParallel
  running : s.running.Nodup
  flying : s.running ⊆ s.inFlight

theorem PoolInv.bodies (h : s.PoolInv) : s.running.length ≤ s.maxParallel :=
  ((List.subperm_of_subset h.running h.flying).length_le).trans h.bounded

/-- A move that leaves the pool alone. -/
theorem PoolInv.of_eq (h : s.PoolInv) (hinFlight : t.inFlight = s.inFlight)
    (hrunning : t.running = s.running) (hmax : t.maxParallel = s.maxParallel)
    (hstarts : s.starts ⊆ t.starts) (hpreparing : ∀ n ∈ t.lane.preparing?, n ∈ s.lane.preparing?) :
    t.PoolInv where
  preparing n hn := by
    rw [hinFlight, hmax]
    exact h.preparing n (hpreparing n hn)
  inFlight := hinFlight ▸ h.inFlight
  started n hn := hstarts (h.started n (hinFlight ▸ hn))
  bounded := by
    rw [hinFlight, hmax]
    exact h.bounded
  running := hrunning ▸ h.running
  flying := by
    rw [hinFlight, hrunning]
    exact h.flying

theorem starts_subset {trace : List DispatchEvent} (htrace : t.trace = s.trace ++ trace) :
    s.starts ⊆ t.starts := by
  rw [CodeRun.starts, CodeRun.starts, htrace, List.filterMap_append]
  exact List.subset_append_left _ _

theorem length_lt_of_capacity {mode : ToolExecutionMode} (hmax : 0 < s.maxParallel)
    (hcapacity : s.capacity mode = true) : s.inFlight.length < s.maxParallel := by
  cases mode <;> simp_all [capacity]

theorem PoolInv.move (h : s.PoolInv) (hmax : 0 < s.maxParallel) (hline : s.LineInv)
    (hstages : s.StageInv) (hmove : Move s action t) : t.PoolInv := by
  cases hmove with
  | stay => exact h
  | @start head rest mode _ hlane hwaits hqueue hrun hcapacity =>
    refine ⟨fun n hn ↦ ?_, h.inFlight, fun n hn ↦ starts_subset rfl (h.started n hn), h.bounded,
      h.running, h.flying⟩
    obtain rfl : head = n := by simpa [DriverLane.preparing?] using hn
    have hroom := length_lt_of_capacity hmax hcapacity
    refine ⟨fun hflying ↦ ?_, hroom⟩
    -- The head has not started, but whatever is in flight has.
    have hpairwise := hline.starts
    rw [hqueue] at hpairwise
    have hlt := (List.pairwise_append.mp hpairwise).2.2 head (h.started head hflying) head (by simp)
    exact absurd hlt (lt_irrefl _)
  | @launch call hlane =>
    obtain ⟨hnew, hroom⟩ := h.preparing call (by simp [hlane, DriverLane.preparing?])
    have hcall := hstages.preparing call (by simp [hlane, DriverLane.preparing?])
    have hidle : call ∉ s.running := fun hrunning ↦ hnew (h.flying hrunning)
    refine ⟨by simp [DriverLane.preparing?], ?_, fun n hn ↦ ?_, ?_, ?_, ?_⟩
    · have hflights := List.Nodup.concat hnew h.inFlight
      rwa [List.concat_eq_append] at hflights
    · refine starts_subset rfl ?_
      rcases List.mem_append.mp hn with hold | hone
      · exact h.started n hold
      · exact List.mem_singleton.mp hone ▸ hcall
    · simpa using hroom
    · have hbodies := List.Nodup.concat hidle h.running
      rwa [List.concat_eq_append] at hbodies
    · exact List.append_subset.mpr ⟨fun n hn ↦ List.mem_append_left _ (h.flying hn),
        List.subset_append_right _ _⟩
  | @place call hlane =>
    obtain ⟨hnew, hroom⟩ := h.preparing call (by simp [hlane, DriverLane.preparing?])
    have hcall := hstages.preparing call (by simp [hlane, DriverLane.preparing?])
    refine ⟨by simp [DriverLane.preparing?], ?_, fun n hn ↦ ?_, ?_, h.running, ?_⟩
    · have hflights := List.Nodup.concat hnew h.inFlight
      rwa [List.concat_eq_append] at hflights
    · rcases List.mem_append.mp hn with hold | hone
      · exact h.started n hold
      · exact List.mem_singleton.mp hone ▸ hcall
    · simpa using hroom
    · exact fun n hn ↦ List.mem_append_left _ (h.flying hn)
  | @bodySettled call ok hcall =>
    exact ⟨h.preparing, h.inFlight, fun n hn ↦ starts_subset rfl (h.started n hn), h.bounded,
      h.running.erase _, fun n hn ↦ h.flying (List.mem_of_mem_erase hn)⟩
  | @flightSettled call hcall hrunning =>
    have hlength : (s.inFlight.erase call).length ≤ s.inFlight.length := List.length_erase_le
    refine ⟨fun n hn ↦ ?_, h.inFlight.erase _, fun n hn ↦ h.started n (List.mem_of_mem_erase hn),
      hlength.trans h.bounded, h.running, fun n hn ↦ ?_⟩
    · obtain ⟨hnew, hroom⟩ := h.preparing n (by simpa using hn)
      exact ⟨fun hflying ↦ hnew (List.mem_of_mem_erase hflying), hlength.trans_lt hroom⟩
    · refine (h.inFlight.mem_erase_iff).mpr ⟨?_, h.flying hn⟩
      rintro rfl
      exact hrunning hn
  | @log call ok hcall =>
    refine h.of_eq rfl rfl rfl ?_ (by simp)
    cases ok
    · exact List.Subset.refl _
    · exact starts_subset rfl
  | quiesce hlane hwaits hblocked =>
    refine h.of_eq rfl rfl rfl (List.Subset.refl _) ?_
    simp only [quiesce]
    split_ifs <;> simp [DriverLane.preparing?]
  | @finalize call hlane =>
    have htrace : ((s.postExecuted call).endCommit call).trace
        = s.trace ++ [.postExecuted call, .commitEnd call] := by
      simp [endCommit, CodeRun.postExecuted]
    exact h.of_eq rfl rfl rfl (starts_subset htrace) (by simp [endCommit, DriverLane.preparing?])
  | submit | drive => exact h.of_eq rfl rfl rfl (List.Subset.refl _) (by simp)
  | complete => exact h.of_eq rfl rfl rfl (starts_subset rfl) (by simp)
  | abort => exact h.of_eq rfl rfl rfl (starts_subset rfl) fun n hn ↦ hn
  | commit | finalizeFull | proceed =>
    exact h.of_eq rfl rfl rfl (starts_subset rfl)
      (by simp [startCommit, endCommit, DriverLane.preparing?])
  | abandon | refuse | reject | failFinalize | failProceed | proceedFull =>
    exact h.of_eq rfl rfl rfl (List.Subset.refl _) (by simp [DriverLane.preparing?])

/-! ## The end of the run -/

/-- Nothing starts once the run is over. -/
structure OverInv (s : CodeRun) : Prop where
  aborted : .runOver ∈ s.trace → s.aborted = true
  quiet : ∀ front back, s.trace = front ++ .runOver :: back → ∀ n mode, .start n mode ∉ back

/-- A split of a trace that grows lies in what was there, or in what is new. -/
theorem split_concat {trace new front back : List DispatchEvent} {e : DispatchEvent}
    (h : trace ++ new = front ++ e :: back) :
    (∃ mid, trace = front ++ e :: mid ∧ back = mid ++ new) ∨
      ∃ mid, new = mid ++ e :: back ∧ front = trace ++ mid := by
  rcases List.append_eq_append_iff.mp h with ⟨mid, hfront, hnew⟩ | ⟨mid, htrace, hback⟩
  · exact .inr ⟨mid, hnew, hfront⟩
  · cases mid with
    | nil =>
      refine .inr ⟨[], by simpa using hback.symm, by simpa using htrace.symm⟩
    | cons first mid =>
      obtain ⟨rfl, rfl⟩ := List.cons.inj hback
      exact .inl ⟨mid, htrace, rfl⟩

theorem OverInv.of_append (h : s.OverInv) {trace : List DispatchEvent}
    (htrace : t.trace = s.trace ++ trace)
    (haborted : s.aborted = true ∨ .runOver ∈ trace → t.aborted = true)
    (hstart : ∀ n mode, .start n mode ∈ trace → s.aborted = false)
    (hnew : ∀ front back, trace = front ++ .runOver :: back → ∀ n mode, .start n mode ∉ back) :
    t.OverInv := by
  constructor
  · rw [htrace, List.mem_append]
    exact fun hover ↦ haborted (hover.imp h.aborted id)
  · intro front back hsplit n mode hmem
    rw [htrace] at hsplit
    rcases split_concat hsplit with ⟨mid, hold, rfl⟩ | ⟨mid, hnew', -⟩
    · rcases List.mem_append.mp hmem with hmid | htail
      · exact h.quiet front mid hold n mode hmid
      · have hover := h.aborted (by rw [hold]; simp)
        rw [hstart n mode htail] at hover
        simp at hover
    · exact hnew mid back hnew' n mode hmem

theorem OverInv.move (h : s.OverInv) (hmove : Move s action t) : t.OverInv := by
  have hkeep (ht : t.trace = s.trace) (ha : t.aborted = s.aborted) : t.OverInv := by
    constructor
    · rw [ht, ha]
      exact h.aborted
    · rw [ht]
      exact h.quiet
  have hone {e : DispatchEvent} (hover : e ≠ .runOver) (hstart : ∀ n mode, e ≠ .start n mode)
      (ht : t.trace = s.trace ++ [e]) (ha : t.aborted = s.aborted) : t.OverInv := by
    refine h.of_append ht ?_ (fun n mode hmem ↦ ?_) fun front back hsplit n mode hmem ↦ ?_
    · rintro (haborted | hmem)
      · rw [ha, haborted]
      · exact absurd (List.mem_singleton.mp hmem).symm hover
    · exact absurd (List.mem_singleton.mp hmem).symm (hstart n mode)
    · have hback : .runOver ∈ [e] := by
        rw [hsplit]
        simp
      exact hover (List.mem_singleton.mp hback).symm
  cases hmove with
  | @start head rest mode _ hlane hwaits hqueue hrun hcapacity =>
    refine h.of_append rfl ?_ (fun _ _ _ ↦ hrun) fun front back hsplit n mode' hmem ↦ ?_
    · rintro (haborted | hmem)
      · exact haborted
      · simp at hmem
    · cases front <;> simp at hsplit
  | abort hrun =>
    refine h.of_append rfl (fun _ ↦ rfl) (by simp) fun front back hsplit n mode hmem ↦ ?_
    cases front <;> simp_all
  | complete hrun =>
    refine h.of_append rfl (fun _ ↦ rfl) (by simp) fun front back hsplit n mode hmem ↦ ?_
    cases front <;> simp_all
  | @finalize call hlane =>
    have htrace : ((s.postExecuted call).endCommit call).trace
        = s.trace ++ [.postExecuted call, .commitEnd call] := by
      simp [endCommit, CodeRun.postExecuted]
    refine h.of_append htrace ?_ (by simp) fun front back hsplit n mode hmem ↦ ?_
    · rintro (haborted | hmem)
      · exact haborted
      · simp at hmem
    · have hback : .runOver ∈ [DispatchEvent.postExecuted call, .commitEnd call] := by
        rw [hsplit]
        simp
      simp at hback
  | @log call ok hcall =>
    cases ok with
    | false => exact hkeep rfl rfl
    | true => exact hone (by simp) (by simp) rfl rfl
  | stay | submit | drive | abandon | refuse | quiesce | place | reject | flightSettled
  | failFinalize | proceedFull | failProceed => exact hkeep rfl rfl
  | commit | launch | bodySettled | finalizeFull | proceed =>
    exact hone (by simp) (by simp) rfl rfl

end CodeRun

end XxAgent
