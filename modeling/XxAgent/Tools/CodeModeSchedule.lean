import XxAgent.Tools.CodeModeOrder

/-!
# Runs of the dispatch scheduler

The exclusive barrier holds in every run, whatever rejects, and a settle event is for a call that
was finalized. These events are appended by side work: they come in the order of submission, and
outside the barriers of other calls, as long as this work keeps up with the lane.
-/

namespace XxAgent

namespace CodeRun

variable {s t : CodeRun} {action : CodeRunAction}

/-! ## The exclusive barrier -/

/-- An exclusive call that has started, and whose commit has not ended, is alone. -/
structure Barrier (s : CodeRun) (n : ℕ) : Prop where
  active : s.exclusiveActive = true
  alone : ∀ m ∈ s.running, m = n
  preparing : ∀ m ∈ s.lane.preparing?, m = n
  committing : ∀ m ∈ s.lane.committing?, m = n
  /-- A call that stands before it in the commit queue has been left there by a rejection. -/
  queue : s.commitQueue = [n] ∨ s.commitQueue = [] ∨
    ∃ m rest, s.commitQueue = m :: rest ∧ m ≠ n ∧ s.settled m = false

/-- Between the start of an exclusive call and the end of its commit, the lane and the bodies deal
with it only. -/
def BarrierInv (s : CodeRun) : Prop :=
  ∀ n front mid, s.trace = front ++ .start n .exclusive :: mid → .commitEnd n ∉ mid →
    (∀ e ∈ mid, ∀ m ∈ e.busy, m = n) ∧ s.Barrier n

/-- The events of a move that keeps the barriers up. -/
theorem BarrierInv.of_append (h : s.BarrierInv) {trace : List DispatchEvent}
    (htrace : t.trace = s.trace ++ trace)
    (hstart : ∀ n, .start n .exclusive ∉ trace)
    (hbarrier : ∀ n, s.Barrier n → .commitEnd n ∉ trace →
      (∀ e ∈ trace, ∀ m ∈ e.busy, m = n) ∧ t.Barrier n) : t.BarrierInv := by
  intro n front mid hsplit hopen
  rw [htrace] at hsplit
  rcases split_concat hsplit with ⟨mid', hold, rfl⟩ | ⟨mid', hnew, -⟩
  · obtain ⟨hmid, hwas⟩ := h n front mid' hold fun hend ↦ hopen (List.mem_append_left _ hend)
    obtain ⟨hevents, his⟩ := hbarrier n hwas fun hend ↦ hopen (List.mem_append_right _ hend)
    refine ⟨fun e he ↦ ?_, his⟩
    rcases List.mem_append.mp he with hfirst | hlast
    · exact hmid e hfirst
    · exact hevents e hlast
  · exact absurd (by rw [hnew]; simp) (hstart n)

/-- A barrier leaves no room. -/
theorem Barrier.no_capacity {n : ℕ} (h : s.Barrier n) {mode : ToolExecutionMode}
    (hcapacity : s.capacity mode = true) : False := by
  cases mode <;> simp [capacity, h.active] at hcapacity

/-- What a barrier looks at. -/
theorem Barrier.of_eq {n : ℕ} (h : s.Barrier n) (hactive : t.exclusiveActive = s.exclusiveActive)
    (hrunning : t.running = s.running) (hqueue : t.commitQueue = s.commitQueue)
    (hsettled : t.settled = s.settled)
    (hpreparing : ∀ m ∈ t.lane.preparing?, m ∈ s.lane.preparing?)
    (hcommitting : ∀ m ∈ t.lane.committing?, m ∈ s.lane.committing?) : t.Barrier n where
  active := hactive.trans h.active
  alone := hrunning ▸ h.alone
  preparing m hm := h.preparing m (hpreparing m hm)
  committing m hm := h.committing m (hcommitting m hm)
  queue := by
    rw [hqueue, hsettled]
    exact h.queue

theorem BarrierInv.start (h : s.BarrierInv) (hline : s.LineInv) (hpool : s.PoolInv) {head : ℕ}
    {rest : List ℕ} {mode : ToolExecutionMode} (hwaits : s.HeadWaits)
    (hqueue : s.pendingQueue = head :: rest) (hcapacity : s.capacity mode = true) :
    BarrierInv { s.taken head rest mode with
      lane := .preparing head
      trace := s.trace ++ [.start head mode] } := by
  intro n front mid hsplit hopen
  rcases split_concat hsplit with ⟨mid', hold, rfl⟩ | ⟨mid', hnew, -⟩
  · obtain ⟨-, hbarrier⟩ := h n front mid' hold fun hend ↦ hopen (List.mem_append_left _ hend)
    exact (hbarrier.no_capacity hcapacity).elim
  · obtain ⟨rfl, rfl, rfl⟩ : head = n ∧ mode = .exclusive ∧ mid = [] := by
      cases mid' <;> simp_all
    have hidle : s.inFlight = [] := by
      rw [capacity, Bool.and_eq_true] at hcapacity
      simpa using hcapacity.2
    refine ⟨by simp, ⟨by simp [CodeRun.taken], fun m hm ↦ ?_, by simp [DriverLane.preparing?],
      by simp [DriverLane.committing?], ?_⟩⟩
    · have hflying := hpool.flying hm
      rw [hidle] at hflying
      simp at hflying
    · -- Nothing is in flight: a call that is still queued was left there.
      change s.commitQueue ++ [head] = [head] ∨ s.commitQueue ++ [head] = [] ∨
        ∃ m rest, s.commitQueue ++ [head] = m :: rest ∧ m ≠ head ∧ s.settled m = false
      cases hcommits : s.commitQueue with
      | nil => exact .inl rfl
      | cons first others =>
        refine .inr (.inr ⟨first, others ++ [head], rfl, ?_, hwaits first others hcommits⟩)
        have hpairwise := hline.line
        rw [CodeRun.line, hcommits, hqueue] at hpairwise
        exact ((List.pairwise_append.mp hpairwise).2.2 first (by simp) head (by simp)).ne

theorem BarrierInv.move (h : s.BarrierInv) (hline : s.LineInv) (hpool : s.PoolInv)
    (hmove : Move s action t) : t.BarrierInv := by
  have hsilent (htrace : t.trace = s.trace) (hbarrier : ∀ n, s.Barrier n → t.Barrier n) :
      t.BarrierInv :=
    h.of_append (htrace.trans (List.append_nil _).symm) (by simp) fun n hn _ ↦
      ⟨by simp, hbarrier n hn⟩
  cases hmove with
  | stay => exact h
  | @start head rest mode _ hlane hwaits hqueue hrun hcapacity =>
    exact h.start hline hpool hwaits hqueue hcapacity
  | refuse hlane hwaits hqueue hrun hcapacity hagent =>
    exact hsilent rfl fun n hn ↦ (hn.no_capacity hcapacity).elim
  | @commit head rest _ _ hlane hqueue hsettled =>
    refine h.of_append rfl (by simp) fun n hn _ ↦ ?_
    -- The head has settled, so it is the exclusive call itself.
    have hhead : s.commitQueue = [n] := by
      rcases hn.queue with hone | hnil | ⟨m, others, hfirst, -, hwaits⟩
      · exact hone
      · simp [hnil] at hqueue
      · obtain ⟨rfl, -⟩ := List.cons.inj (hqueue.symm.trans hfirst)
        rw [hsettled] at hwaits
        simp at hwaits
    obtain ⟨rfl, rfl⟩ := List.cons.inj (hqueue.symm.trans hhead)
    refine ⟨by simp [DispatchEvent.busy], hn.active, hn.alone,
      by simp [startCommit, DriverLane.preparing?],
      by simp [startCommit, DriverLane.committing?], .inr (.inl rfl)⟩
  | @launch call hlane =>
    refine h.of_append rfl (by simp) fun n hn _ ↦ ?_
    obtain rfl : call = n := hn.preparing call (by simp [hlane, DriverLane.preparing?])
    refine ⟨by simp [DispatchEvent.busy], hn.active, fun m hm ↦ ?_, by simp [DriverLane.preparing?],
      by simp [DriverLane.committing?], hn.queue⟩
    rcases List.mem_append.mp hm with hold | hone
    · exact hn.alone m hold
    · exact List.mem_singleton.mp hone
  | @place call hlane =>
    refine hsilent rfl fun n hn ↦ ?_
    obtain rfl : call = n := hn.preparing call (by simp [hlane, DriverLane.preparing?])
    refine ⟨hn.active, hn.alone, by simp [DriverLane.preparing?], by simp [DriverLane.committing?],
      hn.queue.imp id (Or.imp id ?_)⟩
    rintro ⟨m, rest, hqueue, hne, hwaits⟩
    exact ⟨m, rest, hqueue, hne, (Function.update_of_ne hne _ _).trans hwaits⟩
  | @bodySettled call ok hcall =>
    refine h.of_append rfl (by simp) fun n hn _ ↦ ?_
    obtain rfl : call = n := hn.alone call hcall
    refine ⟨by simp [DispatchEvent.busy], hn.active,
      fun m hm ↦ hn.alone m (List.mem_of_mem_erase hm), hn.preparing, hn.committing,
      hn.queue.imp id (Or.imp id ?_)⟩
    rintro ⟨m, rest, hqueue, hne, hwaits⟩
    refine ⟨m, rest, hqueue, hne, ?_⟩
    cases ok with
    | false => exact hwaits
    | true => exact (Function.update_of_ne hne _ _).trans hwaits
  | @finalize call hlane =>
    have htrace : ((s.postExecuted call).endCommit call).trace
        = s.trace ++ [.postExecuted call, .commitEnd call] := by
      simp [endCommit, CodeRun.postExecuted]
    refine h.of_append htrace (by simp) fun n hn hopen ↦ ?_
    obtain rfl : call = n := hn.committing call (by simp [hlane, DriverLane.committing?])
    exact absurd (by simp) hopen
  | @proceed call hlane =>
    refine h.of_append rfl (by simp) fun n hn hopen ↦ ?_
    obtain rfl : call = n := hn.committing call (by simp [hlane, DriverLane.committing?])
    exact absurd (by simp) hopen
  | @finalizeFull call hlane =>
    refine h.of_append rfl (by simp) fun n hn _ ↦ ?_
    obtain rfl : call = n := hn.committing call (by simp [hlane, DriverLane.committing?])
    exact ⟨by simp [DispatchEvent.busy], hn.active, hn.alone, by simp [DriverLane.preparing?],
      by simp [DriverLane.committing?], hn.queue⟩
  | @log call ok hcall =>
    cases ok with
    | false => exact hsilent rfl fun n hn ↦ hn.of_eq rfl rfl rfl rfl (by simp) (by simp)
    | true =>
      exact h.of_append rfl (by simp) fun n hn _ ↦
        ⟨by simp [DispatchEvent.busy], hn.of_eq rfl rfl rfl rfl (by simp) (by simp)⟩
  | abort =>
    exact h.of_append rfl (by simp) fun n hn _ ↦
      ⟨by simp [DispatchEvent.busy], hn.of_eq rfl rfl rfl rfl (fun m hm ↦ hm) fun m hm ↦ hm⟩
  | complete =>
    exact h.of_append rfl (by simp) fun n hn _ ↦
      ⟨by simp [DispatchEvent.busy], hn.of_eq rfl rfl rfl rfl (by simp) (by simp)⟩
  | submit | drive | flightSettled =>
    exact hsilent rfl fun n hn ↦ hn.of_eq rfl rfl rfl rfl (by simp) (by simp)
  | quiesce hlane hwaits hblocked =>
    refine hsilent rfl fun n hn ↦ hn.of_eq rfl rfl rfl rfl ?_ ?_ <;>
      simp only [CodeRun.quiesce] <;> split_ifs <;>
      simp [DriverLane.preparing?, DriverLane.committing?]
  | @proceedFull call hlane =>
    exact hsilent rfl fun n hn ↦ hn.of_eq rfl rfl rfl rfl (by simp [DriverLane.preparing?])
      (by simp [hlane, DriverLane.committing?])
  | abandon | reject | failFinalize | failProceed =>
    exact hsilent rfl fun n hn ↦ hn.of_eq rfl rfl rfl rfl (by simp [DriverLane.preparing?])
      (by simp [DriverLane.committing?])

/-! ## Settle events -/

def logs (s : CodeRun) : List ℕ := s.trace.filterMap DispatchEvent.logged?

/-- A settle event is for a call that was finalized, and there is one. -/
structure LogInv (s : CodeRun) : Prop where
  once : (s.logs ++ s.logWork).Nodup
  finalized : ∀ n ∈ s.logs ++ s.logWork, n ∈ s.postExecutions
  started : ∀ front n back, s.trace = front ++ .logged n :: back → ∃ mode, .start n mode ∈ front

theorem logs_eq {trace : List DispatchEvent} (htrace : t.trace = s.trace ++ trace)
    (hlogged : ∀ n, .logged n ∉ trace) : t.logs = s.logs := by
  have hnone : trace.filterMap DispatchEvent.logged? = [] := by
    rw [List.filterMap_eq_nil_iff]
    intro e he
    cases e with
    | logged n => exact absurd he (hlogged n)
    | _ => rfl
  rw [logs, htrace, List.filterMap_append, hnone, List.append_nil]
  rfl

theorem postExecutions_subset {trace : List DispatchEvent} (htrace : t.trace = s.trace ++ trace) :
    s.postExecutions ⊆ t.postExecutions := by
  rw [CodeRun.postExecutions, CodeRun.postExecutions, htrace, List.filterMap_append]
  exact List.subset_append_left _ _

/-- A move without settle events. -/
theorem LogInv.of_append (h : s.LogInv) {trace : List DispatchEvent}
    (htrace : t.trace = s.trace ++ trace) (hlogged : ∀ n, .logged n ∉ trace)
    (hwork : t.logWork = s.logWork) : t.LogInv := by
  have hlogs := logs_eq htrace hlogged
  constructor
  · rw [hlogs, hwork]
    exact h.once
  · rw [hlogs, hwork]
    exact fun n hn ↦ postExecutions_subset htrace (h.finalized n hn)
  · intro front n back hsplit
    rw [htrace] at hsplit
    rcases split_concat hsplit with ⟨mid, hold, -⟩ | ⟨mid, hnew, -⟩
    · exact h.started front n mid hold
    · exact absurd (by rw [hnew]; simp) (hlogged n)

/-- The work of a call joins that of earlier calls. -/
theorem LogInv.postExecution (h : s.LogInv) (hstages : s.StageInv) {call : ℕ}
    (hlane : s.lane = .finalizing call) {trace : List DispatchEvent}
    (htrace : t.trace = s.trace ++ .postExecuted call :: trace) (hlogged : ∀ n, .logged n ∉ trace)
    (hwork : t.logWork = if s.agent then s.logWork ++ [call] else s.logWork) : t.LogInv := by
  have hlogs : t.logs = s.logs := logs_eq htrace (by simpa using hlogged)
  have hposts : call ∈ t.postExecutions := by
    rw [CodeRun.postExecutions, htrace, List.mem_filterMap]
    exact ⟨.postExecuted call, by simp, rfl⟩
  have hnew : call ∉ s.logs ++ s.logWork := fun hmem ↦ by
    have hlt := hstages.finalizing call (by simp [hlane, DriverLane.finalizing?]) call
      (h.finalized call hmem)
    exact absurd hlt (lt_irrefl _)
  constructor
  · rw [hlogs, hwork]
    split_ifs
    · have honce := List.Nodup.concat hnew h.once
      rwa [List.concat_eq_append, List.append_assoc] at honce
    · exact h.once
  · rw [hlogs, hwork]
    intro n hn
    by_cases hcall : n = call
    · exact hcall ▸ hposts
    · refine postExecutions_subset htrace (h.finalized n ?_)
      split_ifs at hn
      · simpa [hcall] using hn
      · exact hn
  · intro front n back hsplit
    rw [htrace] at hsplit
    rcases split_concat hsplit with ⟨mid, hold, -⟩ | ⟨mid, hsplit', -⟩
    · exact h.started front n mid hold
    · have hmem : .logged n ∈ DispatchEvent.postExecuted call :: trace := by
        rw [hsplit']
        simp
      exact absurd (by simpa using hmem) (hlogged n)

theorem LogInv.move (h : s.LogInv) (hstages : s.StageInv) (hmove : Move s action t) : t.LogInv := by
  cases hmove with
  | stay => exact h
  | @finalize call hlane =>
    have htrace : ((s.postExecuted call).endCommit call).trace
        = s.trace ++ .postExecuted call :: [.commitEnd call] := by
      simp [endCommit, CodeRun.postExecuted]
    exact h.postExecution hstages hlane htrace (by simp) rfl
  | @finalizeFull call hlane =>
    have htrace : (s.postExecuted call).trace = s.trace ++ [.postExecuted call] := rfl
    exact h.postExecution hstages hlane htrace (by simp) rfl
  | @log call ok hcall =>
    have hperm : (call :: s.logWork.erase call).Perm s.logWork :=
      (List.perm_cons_erase hcall).symm
    cases ok with
    | false =>
      have hsub : (s.logs ++ s.logWork.erase call).Sublist (s.logs ++ s.logWork) :=
        List.Sublist.append_left List.erase_sublist _
      exact ⟨h.once.sublist hsub, fun n hn ↦ h.finalized n (hsub.subset hn), h.started⟩
    | true =>
      have hlogs : CodeRun.logs { s with
          logWork := s.logWork.erase call
          trace := s.trace ++ [.logged call]
          lane := s.lane.raced true } = s.logs ++ [call] := by
        simp [CodeRun.logs, DispatchEvent.logged?]
      have hsame : (s.logs ++ [call] ++ s.logWork.erase call).Perm (s.logs ++ s.logWork) := by
        rw [List.append_assoc]
        exact hperm.append_left _
      constructor
      · rw [if_pos rfl, hlogs]
        exact hsame.nodup_iff.mpr h.once
      · rw [if_pos rfl, hlogs]
        exact fun n hn ↦ postExecutions_subset rfl (h.finalized n (hsame.mem_iff.mp hn))
      · intro front n back hsplit
        rcases split_concat hsplit with ⟨mid, hold, -⟩ | ⟨mid, hnew, rfl⟩
        · exact h.started front n mid hold
        · obtain rfl : call = n := by cases mid <;> simp_all
          have hpost := h.finalized call (List.mem_append_right _ hcall)
          have hstarted := hstages.committed call (hstages.postExecutedCommits call hpost)
          obtain ⟨e, he, hcalled⟩ := List.mem_filterMap.mp hstarted
          cases e with
          | start n mode =>
            obtain rfl : n = call := Option.some.inj hcalled
            exact ⟨mode, List.mem_append_left _ he⟩
          | _ => simp [DispatchEvent.started?] at hcalled
  | submit | drive | abandon | refuse | quiesce | place | reject | flightSettled | failFinalize
  | proceedFull | failProceed => exact h.of_append (List.append_nil _).symm (by simp) rfl
  | abort | complete | commit | start | launch | bodySettled | proceed =>
    exact h.of_append rfl (by simp) rfl

/-! ### Settle events that keep up with the lane -/

/-- Settle events are appended in the order of the commits, and none is outstanding when an
exclusive call starts. -/
def KeepsUp (s : CodeRun) : CodeRunAction → Prop
  | .logSettled call true => ∀ m ∈ s.logWork, call ≤ m
  | .pass .exclusive _ => s.capacity .exclusive = true → s.logWork = []
  | _ => True

/-- Settle events in the order of submission, and outside the barriers of other calls. -/
structure LogOrderInv (s : CodeRun) : Prop where
  line : (s.logs ++ s.logWork).Pairwise (· < ·)
  barrier : ∀ n front mid, s.trace = front ++ .start n .exclusive :: mid → .commitEnd n ∉ mid →
    (∀ m, .logged m ∈ mid → m = n) ∧ ∀ m ∈ s.logWork, m = n

/-- A move without settle events, and without an exclusive start. -/
theorem LogOrderInv.of_append (h : s.LogOrderInv) {trace : List DispatchEvent}
    (htrace : t.trace = s.trace ++ trace) (hlogged : ∀ n, .logged n ∉ trace)
    (hstart : ∀ n, .start n .exclusive ∉ trace)
    (hline : (s.logs ++ t.logWork).Pairwise (· < ·))
    (hbarrier : ∀ n, (∀ m ∈ s.logWork, m = n) →
      (∃ front mid, s.trace = front ++ .start n .exclusive :: mid ∧ .commitEnd n ∉ mid) →
      .commitEnd n ∉ trace → ∀ m ∈ t.logWork, m = n) : t.LogOrderInv := by
  refine ⟨logs_eq htrace hlogged ▸ hline, fun n front mid hsplit hopen ↦ ?_⟩
  rw [htrace] at hsplit
  rcases split_concat hsplit with ⟨mid', hold, rfl⟩ | ⟨mid', hnew, -⟩
  · have hopen' : .commitEnd n ∉ mid' := fun hend ↦ hopen (List.mem_append_left _ hend)
    obtain ⟨hmid, hwork⟩ := h.barrier n front mid' hold hopen'
    refine ⟨fun m hm ↦ ?_, hbarrier n hwork ⟨front, mid', hold, hopen'⟩ fun hend ↦
      hopen (List.mem_append_right _ hend)⟩
    rcases List.mem_append.mp hm with hfirst | hlast
    · exact hmid m hfirst
    · exact absurd hlast (hlogged m)
  · exact absurd (by rw [hnew]; simp) (hstart n)

theorem LogOrderInv.of_silent (h : s.LogOrderInv) {trace : List DispatchEvent}
    (htrace : t.trace = s.trace ++ trace) (hlogged : ∀ n, .logged n ∉ trace)
    (hstart : ∀ n, .start n .exclusive ∉ trace) (hwork : t.logWork = s.logWork) :
    t.LogOrderInv :=
  h.of_append htrace hlogged hstart (hwork ▸ h.line) fun _ hold _ _ ↦ hwork ▸ hold

theorem LogOrderInv.postExecution (h : s.LogOrderInv) (hstages : s.StageInv) (hlogs : s.LogInv)
    (hbarriers : s.BarrierInv) {call : ℕ} (hlane : s.lane = .finalizing call)
    {trace : List DispatchEvent} (htrace : t.trace = s.trace ++ .postExecuted call :: trace)
    (hlogged : ∀ n, .logged n ∉ trace) (hstart : ∀ n, .start n .exclusive ∉ trace)
    (hwork : t.logWork = if s.agent then s.logWork ++ [call] else s.logWork) :
    t.LogOrderInv := by
  refine h.of_append htrace (by simpa using hlogged) (by simpa using hstart) ?_ ?_
  · rw [hwork]
    split_ifs
    · rw [← List.append_assoc, List.pairwise_append]
      refine ⟨h.line, List.pairwise_singleton _ _, fun m hm n hn ↦ ?_⟩
      rw [List.mem_singleton.mp hn]
      exact hstages.finalizing call (by simp [hlane, DriverLane.finalizing?]) m
        (hlogs.finalized m hm)
    · exact h.line
  · rintro n hold ⟨front, mid, hsplit, hopen⟩ - m hm
    have hcall : call = n := ((hbarriers n front mid hsplit hopen).2).committing call
      (by simp [hlane, DriverLane.committing?])
    rw [hwork] at hm
    split_ifs at hm
    · rcases List.mem_append.mp hm with hfirst | hlast
      · exact hold m hfirst
      · exact (List.mem_singleton.mp hlast).trans hcall
    · exact hold m hm

theorem LogOrderInv.move (h : s.LogOrderInv) (hstages : s.StageInv) (hlogs : s.LogInv)
    (hbarriers : s.BarrierInv) (hok : s.KeepsUp action) (hmove : Move s action t) :
    t.LogOrderInv := by
  cases hmove with
  | stay => exact h
  | @start head rest mode appended hlane hwaits hqueue hrun hcapacity =>
    cases mode with
    | parallel => exact h.of_silent rfl (by simp) (by simp) rfl
    | exclusive =>
      have hempty : s.logWork = [] := hok hcapacity
      refine ⟨?_, fun n front mid hsplit hopen ↦ ?_⟩
      · rw [logs_eq rfl (by simp)]
        exact h.line
      · refine ⟨fun m hm ↦ ?_, fun m hm ↦ ?_⟩
        · rcases split_concat hsplit with ⟨mid', hold, rfl⟩ | ⟨mid', hnew, -⟩
          · rcases List.mem_append.mp hm with hfirst | hlast
            · exact (h.barrier n front mid' hold fun hend ↦
                hopen (List.mem_append_left _ hend)).1 m hfirst
            · simp at hlast
          · cases mid' <;> simp_all
        · have hnone : m ∈ s.logWork := hm
          rw [hempty] at hnone
          simp at hnone
  | @finalize call hlane =>
    have htrace : ((s.postExecuted call).endCommit call).trace
        = s.trace ++ .postExecuted call :: [.commitEnd call] := by
      simp [endCommit, CodeRun.postExecuted]
    exact h.postExecution hstages hlogs hbarriers hlane htrace (by simp) (by simp) rfl
  | @finalizeFull call hlane =>
    have htrace : (s.postExecuted call).trace = s.trace ++ [.postExecuted call] := rfl
    exact h.postExecution hstages hlogs hbarriers hlane htrace (by simp) (by simp) rfl
  | @log call ok hcall =>
    have hsub : (s.logWork.erase call).Sublist s.logWork := List.erase_sublist
    cases ok with
    | false =>
      exact h.of_append (List.append_nil _).symm (by simp) (by simp)
        (h.line.sublist (List.Sublist.append_left hsub _))
        fun n hold _ _ m hm ↦ hold m (hsub.subset hm)
    | true =>
      have hfirst : ∀ m ∈ s.logWork, call ≤ m := hok
      have hnew : CodeRun.logs { s with
          logWork := s.logWork.erase call
          trace := s.trace ++ [.logged call]
          lane := s.lane.raced true } = s.logs ++ [call] := by
        simp [CodeRun.logs, DispatchEvent.logged?]
      obtain ⟨hlogged, hwork, hcross⟩ := List.pairwise_append.mp h.line
      have hnodup : s.logWork.Nodup := (List.nodup_append.mp hlogs.once).2.1
      refine ⟨?_, fun n front mid hsplit hopen ↦ ?_⟩
      · rw [if_pos rfl, hnew, List.append_assoc, List.pairwise_append]
        refine ⟨hlogged, List.pairwise_cons.mpr ⟨fun m hm ↦ ?_, hwork.sublist hsub⟩,
          fun a ha b hb ↦ ?_⟩
        · have hm' := (hnodup.mem_erase_iff).mp hm
          exact lt_of_le_of_ne (hfirst m hm'.2) hm'.1.symm
        · rcases List.mem_cons.mp hb with rfl | hb
          · exact hcross a ha b hcall
          · exact hcross a ha b (hsub.subset hb)
      · rcases split_concat hsplit with ⟨mid', hold, rfl⟩ | ⟨mid', hsplit', -⟩
        · obtain ⟨hmid, hwork'⟩ := h.barrier n front mid' hold fun hend ↦
            hopen (List.mem_append_left _ hend)
          refine ⟨fun m hm ↦ ?_, fun m hm ↦ hwork' m (hsub.subset hm)⟩
          rcases List.mem_append.mp hm with hold' | hone
          · exact hmid m hold'
          · obtain rfl : m = call := by simpa using hone
            exact hwork' m hcall
        · cases mid' <;> simp_all
  | submit | drive | abandon | refuse | quiesce | place | reject | flightSettled | failFinalize
  | proceedFull | failProceed => exact h.of_silent (List.append_nil _).symm (by simp) (by simp) rfl
  | abort | complete | commit | launch | bodySettled | proceed =>
    exact h.of_silent rfl (by simp) (by simp) rfl

/-!
## Every call of a code run is answered

As long as no stage rejects, the lane neither rests nor sleeps over a call that it could deal with.
-/

/-- No stage rejects, and no settle append while a commit races for one. -/
def Unrejected (s : CodeRun) : CodeRunAction → Prop
  | .pass _ appended => s.agent = true → appended = true
  | .prepared preparation => preparation ≠ .rejected
  | .bodySettled _ ok | .finalized ok => ok = true
  | .logSettled _ ok => ok = true ∨ ∀ call, s.lane ≠ .draining call none
  | _ => True

/-- What keeps the lane alive. -/
structure LiveInv (s : CodeRun) : Prop where
  queued : ∀ m ∈ s.commitQueue, s.settled m = true ∨ m ∈ s.running ∨ m ∈ s.lane.preparing?
  active : s.exclusiveActive = true →
    ∃ m, s.mode m = some .exclusive ∧ (m ∈ s.commitQueue ∨ m ∈ s.lane.committing?)
  idle : s.lane = .idle → s.pendingQueue = [] ∧ s.commitQueue = [] ∧ s.inFlight = []
  asleep : s.lane = .asleep false → s.inFlight ≠ []
  raced : ∀ call, s.lane ≠ .draining call (some false)
  answered : ∀ n, 1 ≤ n → n ≤ s.dispatches → n ∈ s.answered ∨ n ∈ s.pendingQueue ∨
    n ∈ s.commitQueue ∨ n ∈ s.lane.finalizing?

theorem awake_free {lane : DriverLane} (h : lane.Awake) :
    lane.preparing? = none ∧ lane.finalizing? = none ∧ lane.committing? = none := by
  rcases h with rfl | rfl <;> exact ⟨rfl, rfl, rfl⟩

/-- A lane that goes to sleep has a flight to wait for. -/
theorem LiveInv.quiesce (h : s.LiveInv) (hmax : 0 < s.maxParallel) (hpool : s.PoolInv)
    {mode : ToolExecutionMode} (hlane : s.lane.Awake) (hwaits : s.HeadWaits)
    (hblocked : s.pendingQueue = [] ∨ s.capacity mode = false) : s.quiesce.LiveInv := by
  obtain ⟨hpreparing, hfinalizing, hcommitting⟩ := awake_free hlane
  have hflying : ¬ (s.pendingQueue = [] ∧ s.commitQueue = [] ∧ s.inFlight = []) →
      s.inFlight ≠ [] := by
    intro hbusy hidle
    have hqueue : s.commitQueue = [] := by
      cases hq : s.commitQueue with
      | nil => rfl
      | cons m rest =>
        -- The head of the queue waits for its body, and that body is in flight.
        rcases h.queued m (by simp [hq]) with hsettled | hrunning | hprepares
        · rw [hwaits m rest hq] at hsettled
          simp at hsettled
        · have hin := hpool.flying hrunning
          rw [hidle] at hin
          simp at hin
        · simp [hpreparing] at hprepares
    have hinactive : s.exclusiveActive = false := by
      refine Bool.eq_false_iff.mpr fun hactive ↦ ?_
      obtain ⟨m, -, hm | hm⟩ := h.active hactive
      · simp [hqueue] at hm
      · simp [hcommitting] at hm
    rcases hblocked with hnil | hfull
    · exact hbusy ⟨hnil, hqueue, hidle⟩
    · cases mode with
      | exclusive => simp [capacity, hinactive, hidle] at hfull
      | parallel =>
        simp only [capacity, hinactive, hidle, List.length_nil, Bool.not_false, Bool.true_and,
          decide_eq_false_iff_not] at hfull
        exact hfull hmax
  have hlanes : s.quiesce.lane = .idle ∧
      (s.pendingQueue = [] ∧ s.commitQueue = [] ∧ s.inFlight = []) ∨
      s.quiesce.lane = .asleep false ∧ s.inFlight ≠ [] := by
    by_cases hbusy : s.pendingQueue = [] ∧ s.commitQueue = [] ∧ s.inFlight = []
    · exact .inl ⟨if_pos hbusy, hbusy⟩
    · exact .inr ⟨if_neg hbusy, hflying hbusy⟩
  have hfree : s.quiesce.lane.committing? = none := by
    rcases hlanes with ⟨heq, -⟩ | ⟨heq, -⟩ <;> rw [heq] <;> rfl
  refine ⟨fun m hm ↦ ?_, fun hactive ↦ ?_, fun heq ↦ ?_, fun heq ↦ ?_, fun call heq ↦ ?_,
    fun n h1 hn ↦ ?_⟩
  · rcases h.queued m hm with hsettled | hrunning | hprepares
    · exact .inl hsettled
    · exact .inr (.inl hrunning)
    · simp [hpreparing] at hprepares
  · obtain ⟨m, hmode, hm | hm⟩ := h.active hactive
    · exact ⟨m, hmode, .inl hm⟩
    · simp [hcommitting] at hm
  · rcases hlanes with ⟨-, hempty⟩ | ⟨hasleep, -⟩
    · exact hempty
    · rw [heq] at hasleep
      simp at hasleep
  · rcases hlanes with ⟨hidle, -⟩ | ⟨-, hne⟩
    · rw [heq] at hidle
      simp at hidle
    · exact hne
  · rw [heq] at hfree
    simp [DriverLane.committing?] at hfree
  · rcases h.answered n h1 hn with hdone | hpending | hqueued | hfinal
    · exact .inl hdone
    · exact .inr (.inl hpending)
    · exact .inr (.inr (.inl hqueued))
    · simp [hfinalizing] at hfinal

/-- A lane that was woken or driven awaits what it did, and neither rests nor sleeps anew. -/
theorem LiveInv.of_lane (h : s.LiveInv) {u : CodeRun} {lane : DriverLane}
    (hu : u = { s with lane })
    (hpreparing : lane.preparing? = s.lane.preparing?)
    (hfinalizing : lane.finalizing? = s.lane.finalizing?)
    (hcommitting : lane.committing? = s.lane.committing?)
    (hidle : lane = .idle → s.lane = .idle)
    (hasleep : lane = .asleep false → s.lane = .asleep false)
    (hraced : ∀ call, lane ≠ .draining call (some false)) : u.LiveInv := by
  subst hu
  refine ⟨?_, ?_, fun heq ↦ h.idle (hidle heq), fun heq ↦ h.asleep (hasleep heq), hraced, ?_⟩
  · dsimp only
    rw [hpreparing]
    exact h.queued
  · dsimp only
    rw [hcommitting]
    exact h.active
  · dsimp only
    rw [hfinalizing]
    exact h.answered

/-- What the lane does not look at. -/
theorem LiveInv.of_eq (h : s.LiveInv) (hcommits : t.commitQueue = s.commitQueue)
    (hpending : t.pendingQueue = s.pendingQueue) (hflights : t.inFlight = s.inFlight)
    (hrunning : t.running = s.running) (hsettled : t.settled = s.settled) (hmode : t.mode = s.mode)
    (hactive : t.exclusiveActive = s.exclusiveActive) (hlane : t.lane = s.lane)
    (hanswered : t.answered = s.answered) (hdispatches : t.dispatches = s.dispatches) :
    t.LiveInv := by
  obtain ⟨h1, h2, h3, h4, h5, h6⟩ := h
  constructor
  · rw [hcommits, hsettled, hrunning, hlane]
    exact h1
  · rw [hactive, hmode, hcommits, hlane]
    exact h2
  · rw [hlane, hpending, hcommits, hflights]
    exact h3
  · rw [hlane, hflights]
    exact h4
  · rw [hlane]
    exact h5
  · rw [hdispatches, hanswered, hpending, hcommits, hlane]
    exact h6

theorem LiveInv.endCommit (h : s.LiveInv) {call : ℕ} (hlane : s.lane.committing? = some call)
    (hfinal : ∀ n ∈ s.lane.finalizing?, n ∈ s.answered) : (s.endCommit call).LiveInv := by
  have hpreparing : s.lane.preparing? = none := by
    cases hl : s.lane <;> simp_all [DriverLane.preparing?, DriverLane.committing?]
  refine ⟨fun m hm ↦ ?_, fun hactive ↦ ?_, by simp [CodeRun.endCommit], by simp [CodeRun.endCommit],
    by simp [CodeRun.endCommit], fun n h1 hn ↦ ?_⟩
  · rcases h.queued m hm with hsettled | hrunning | hprepares
    · exact .inl hsettled
    · exact .inr (.inl hrunning)
    · simp [hpreparing] at hprepares
  · have hother : s.mode call ≠ some .exclusive := by
      intro hmode
      simp [CodeRun.endCommit, hmode] at hactive
    have hactive' : s.exclusiveActive = true := by
      simpa [CodeRun.endCommit, hother] using hactive
    obtain ⟨m, hmode, hm | hm⟩ := h.active hactive'
    · exact ⟨m, hmode, .inl hm⟩
    · obtain rfl : call = m := by simpa [hlane] using hm
      exact absurd hmode hother
  · rcases h.answered n h1 hn with hdone | hpending | hqueued | hfinal'
    · exact .inl hdone
    · exact .inr (.inl hpending)
    · exact .inr (.inr (.inl hqueued))
    · exact .inl (hfinal n hfinal')

theorem LiveInv.postExecuted (h : s.LiveInv) {call : ℕ} (hlane : s.lane = .finalizing call) :
    (s.postExecuted call).LiveInv ∧
      ∀ n ∈ (s.postExecuted call).lane.finalizing?, n ∈ (s.postExecuted call).answered := by
  refine ⟨⟨h.queued, h.active, h.idle, h.asleep, h.raced, fun n h1 hn ↦ ?_⟩, fun n hn ↦ ?_⟩
  · exact (h.answered n h1 hn).imp (List.mem_append_left _) id
  · obtain rfl : call = n := by simpa [CodeRun.postExecuted, hlane, DriverLane.finalizing?] using hn
    simp [CodeRun.postExecuted]

theorem LiveInv.draining (h : s.LiveInv) {call : ℕ} (hlane : s.lane.committing? = some call)
    (hfinal : ∀ n ∈ s.lane.finalizing?, n ∈ s.answered) :
    LiveInv { s with lane := .draining call none } := by
  have hpreparing : s.lane.preparing? = none := by
    cases hl : s.lane <;> simp_all [DriverLane.preparing?, DriverLane.committing?]
  refine ⟨fun m hm ↦ ?_, fun hactive ↦ ?_, by simp, by simp, by simp, fun n h1 hn ↦ ?_⟩
  · rcases h.queued m hm with hsettled | hrunning | hprepares
    · exact .inl hsettled
    · exact .inr (.inl hrunning)
    · simp [hpreparing] at hprepares
  · obtain ⟨m, hmode, hm | hm⟩ := h.active hactive
    · exact ⟨m, hmode, .inl hm⟩
    · rw [hlane] at hm
      exact ⟨m, hmode, .inr (by simpa [DriverLane.committing?] using hm)⟩
  · rcases h.answered n h1 hn with hdone | hpending | hqueued | hfinal'
    · exact .inl hdone
    · exact .inr (.inl hpending)
    · exact .inr (.inr (.inl hqueued))
    · exact .inl (hfinal n hfinal')

/-- A lane that is set going. -/
theorem LiveInv.drive (h : s.LiveInv) : LiveInv { s with lane := s.lane.driven } := by
  refine h.of_lane rfl (by simp) (by simp) (by simp) ?_ ?_ fun call heq ↦ h.raced call ?_
  all_goals cases hl : s.lane <;> simp_all [DriverLane.driven]

/-- A lane that is free goes on or waits for a stage of a call. -/
theorem LiveInv.of_free (h : s.LiveInv) (hfree : s.lane.Awake)
    (hidle : t.lane ≠ .idle) (hasleep : t.lane ≠ .asleep false)
    (hraced : ∀ call, t.lane ≠ .draining call (some false))
    (hqueued : ∀ m ∈ t.commitQueue, m ∈ s.commitQueue ∨ m ∈ t.lane.preparing?)
    (hsettled : t.settled = s.settled) (hrunning : t.running = s.running)
    (hactive : t.exclusiveActive = true →
      ∃ m, t.mode m = some .exclusive ∧ (m ∈ t.commitQueue ∨ m ∈ t.lane.committing?))
    (hanswered : ∀ n, n ∈ s.answered ∨ n ∈ s.pendingQueue ∨ n ∈ s.commitQueue →
      n ∈ t.answered ∨ n ∈ t.pendingQueue ∨ n ∈ t.commitQueue ∨ n ∈ t.lane.finalizing?)
    (hdispatches : t.dispatches = s.dispatches) : t.LiveInv := by
  obtain ⟨hpreparing, hfinalizing, -⟩ := awake_free hfree
  refine ⟨fun m hm ↦ ?_, hactive, fun heq ↦ absurd heq hidle, fun heq ↦ absurd heq hasleep, hraced,
    fun n h1 hn ↦ hanswered n ?_⟩
  · rw [hsettled, hrunning]
    rcases hqueued m hm with hold | hnew
    · have hstate := h.queued m hold
      simp only [hpreparing, Option.mem_def, reduceCtorEq, or_false] at hstate
      exact hstate.imp id .inl
    · exact .inr (.inr hnew)
  · have hstate := h.answered n h1 (hdispatches ▸ hn)
    simpa [hfinalizing] using hstate

/-- A call is on its way, or its result is there. -/
theorem LiveInv.prepared (h : s.LiveInv) {call : ℕ} (hlane : s.lane = .preparing call)
    (hpass : t.lane = .pass)
    (hsettled : ∀ m, s.settled m = true → t.settled m = true ∨ m ∈ t.running)
    (hrunning : ∀ m ∈ s.running, m ∈ t.running)
    (hcall : t.settled call = true ∨ call ∈ t.running)
    (hcommits : t.commitQueue = s.commitQueue) (hpending : t.pendingQueue = s.pendingQueue)
    (hmode : t.mode = s.mode) (hactive : t.exclusiveActive = s.exclusiveActive)
    (hanswered : t.answered = s.answered) (hdispatches : t.dispatches = s.dispatches) :
    t.LiveInv := by
  refine ⟨fun m hm ↦ ?_, fun hactive' ↦ ?_, by simp [hpass], by simp [hpass], by simp [hpass],
    fun n h1 hn ↦ ?_⟩
  · have hflying : t.settled m = true ∨ m ∈ t.running := by
      rcases h.queued m (hcommits ▸ hm) with hdone | hbody | hprepares
      · exact hsettled m hdone
      · exact .inr (hrunning m hbody)
      · obtain rfl : call = m := by simpa [hlane, DriverLane.preparing?] using hprepares
        exact hcall
    exact hflying.imp id .inl
  · rw [hmode, hcommits]
    obtain ⟨m, hexclusive, hm | hm⟩ := h.active (hactive ▸ hactive')
    · exact ⟨m, hexclusive, .inl hm⟩
    · simp [hlane, DriverLane.committing?] at hm
  · rw [hanswered, hpending, hcommits]
    have hstate := h.answered n h1 (hdispatches ▸ hn)
    simp only [hlane, DriverLane.finalizing?, Option.mem_def, reduceCtorEq, or_false] at hstate
    exact hstate.imp id (Or.imp id .inl)

theorem LiveInv.move (h : s.LiveInv) (hmax : 0 < s.maxParallel) (hpool : s.PoolInv)
    (hok : s.Unrejected action) (hmove : Move s action t) : t.LiveInv := by
  cases hmove with
  | stay => exact h
  | submit hrun =>
    have hwoken : s.lane.woken.driven ≠ .idle ∧ s.lane.woken.driven ≠ .asleep false := by
      cases s.lane <;> simp [DriverLane.woken, DriverLane.driven]
    refine ⟨?_, ?_, fun heq ↦ absurd heq hwoken.1, fun heq ↦ absurd heq hwoken.2, ?_, ?_⟩
    · simpa using h.queued
    · simpa using h.active
    · intro call heq
      refine h.raced call ?_
      cases hl : s.lane <;> simp_all [DriverLane.woken, DriverLane.driven]
    · intro n h1 hn
      rcases Nat.le_succ_iff.mp hn with hold | rfl
      · rcases h.answered n h1 hold with hdone | hpending | hqueued | hfinal
        · exact .inl hdone
        · exact .inr (.inl (List.mem_append_left _ hpending))
        · exact .inr (.inr (.inl hqueued))
        · exact .inr (.inr (.inr (by simpa using hfinal)))
      · exact .inr (.inl (by simp))
  | abort hrun => exact h.of_eq rfl rfl rfl rfl rfl rfl rfl rfl rfl rfl
  | complete hrun =>
    have hover : LiveInv { s with aborted := true, trace := s.trace ++ [.runOver] } :=
      h.of_eq rfl rfl rfl rfl rfl rfl rfl rfl rfl rfl
    exact hover.drive
  | drive => exact h.drive
  | @commit head rest _ _ hlane hqueue hsettled =>
    refine h.of_free hlane (by simp [startCommit]) (by simp [startCommit]) (by simp [startCommit])
      (fun m hm ↦ .inl (by rw [hqueue]; exact List.mem_cons_of_mem _ hm)) rfl rfl (fun hactive ↦ ?_)
      (fun n hn ↦ ?_) rfl
    · obtain ⟨m, hmode, hm | hm⟩ := h.active hactive
      · refine ⟨m, hmode, ?_⟩
        rw [hqueue] at hm
        rcases List.mem_cons.mp hm with rfl | hrest
        · exact .inr rfl
        · exact .inl hrest
      · simp [(awake_free hlane).2.2] at hm
    · rw [hqueue] at hn
      rcases hn with hdone | hpending | hqueued
      · exact .inl hdone
      · exact .inr (.inl hpending)
      · rcases List.mem_cons.mp hqueued with rfl | hrest
        · exact .inr (.inr (.inr rfl))
        · exact .inr (.inr (.inl hrest))
  | @abandon head rest _ _ hlane hwaits hqueue hover =>
    refine h.of_free hlane (by simp) (by simp) (by simp) (fun m hm ↦ .inl hm) rfl rfl
      (fun hactive ↦ ?_) (fun n hn ↦ ?_) rfl
    · obtain ⟨m, hmode, hm | hm⟩ := h.active hactive
      · exact ⟨m, hmode, .inl hm⟩
      · simp [(awake_free hlane).2.2] at hm
    · rw [hqueue] at hn
      rcases hn with hdone | hpending | hqueued
      · exact .inl (List.mem_append_left _ hdone)
      · rcases List.mem_cons.mp hpending with rfl | hrest
        · exact .inl (by simp)
        · exact .inr (.inl hrest)
      · exact .inr (.inr (.inl hqueued))
  | @start head rest mode _ hlane hwaits hqueue hrun hcapacity =>
    refine h.of_free hlane (by simp) (by simp) (by simp) (fun m hm ↦ ?_) rfl rfl
      (fun hactive ↦ ?_) (fun n hn ↦ ?_) rfl
    · rcases List.mem_append.mp hm with hold | hone
      · exact .inl hold
      · exact .inr (List.mem_singleton.mp hone ▸ rfl)
    · -- There was room, so no exclusive call was active before this one.
      have hinactive : s.exclusiveActive = false := by
        cases mode <;> rw [capacity, Bool.and_eq_true] at hcapacity <;> simpa using hcapacity.1
      have hmode : mode = .exclusive := by simpa [CodeRun.taken, hinactive] using hactive
      refine ⟨head, ?_, .inl (by simp [CodeRun.taken])⟩
      simp [CodeRun.taken, hmode]
    · rw [hqueue] at hn
      rcases hn with hdone | hpending | hqueued
      · exact .inl hdone
      · rcases List.mem_cons.mp hpending with rfl | hrest
        · exact .inr (.inr (.inl (by simp [CodeRun.taken])))
        · exact .inr (.inl hrest)
      · exact .inr (.inr (.inl (by simp [CodeRun.taken, hqueued])))
  | refuse hlane hwaits hqueue hrun hcapacity hagent => exact absurd (hok hagent) (by simp)
  | quiesce hlane hwaits hblocked => exact h.quiesce hmax hpool hlane hwaits hblocked
  | @launch call hlane =>
    exact h.prepared hlane rfl (fun m hm ↦ .inl hm)
      (fun m hm ↦ List.mem_append_left _ hm) (.inr (by simp)) rfl rfl rfl rfl rfl rfl
  | @place call hlane =>
    refine h.prepared hlane rfl (fun m hm ↦ ?_) (fun m hm ↦ hm) (.inl ?_)
      rfl rfl rfl rfl rfl rfl
    · by_cases hcall : m = call
      · exact .inl (hcall ▸ Function.update_self _ _ _)
      · exact .inl ((Function.update_of_ne hcall _ _).trans hm)
    · exact Function.update_self _ _ _
  | reject hlane => exact absurd rfl hok
  | @bodySettled call ok hcall =>
    obtain rfl : ok = true := hok
    refine ⟨fun m hm ↦ ?_, h.active, h.idle, h.asleep, h.raced, h.answered⟩
    by_cases hm' : m = call
    · exact .inl (hm' ▸ Function.update_self _ _ _)
    · refine (h.queued m hm).imp (fun hsettled ↦ ?_) (Or.imp ?_ id)
      · exact (Function.update_of_ne hm' _ _).trans hsettled
      · exact fun hrunning ↦ (List.mem_erase_of_ne hm').mpr hrunning
  | @flightSettled call hcall hrunning =>
    refine ⟨?_, ?_, fun heq ↦ ?_, fun heq ↦ ?_, fun call heq ↦ h.raced call ?_, ?_⟩
    · simpa using h.queued
    · simpa using h.active
    · have hidle : s.lane = .idle := by cases hl : s.lane <;> simp_all [DriverLane.woken]
      obtain ⟨hpending, hqueue, hflights⟩ := h.idle hidle
      exact ⟨hpending, hqueue, by simp [hflights]⟩
    · cases hl : s.lane <;> simp_all [DriverLane.woken]
    · cases hl : s.lane <;> simp_all [DriverLane.woken]
    · simpa using h.answered
  | @finalize call hlane =>
    obtain ⟨hpost, hfinal⟩ := h.postExecuted hlane
    exact hpost.endCommit (by simp [CodeRun.postExecuted, hlane, DriverLane.committing?]) hfinal
  | @finalizeFull call hlane =>
    obtain ⟨hpost, hfinal⟩ := h.postExecuted hlane
    exact hpost.draining (by simp [CodeRun.postExecuted, hlane, DriverLane.committing?]) hfinal
  | failFinalize hlane => exact absurd hok (by simp [Unrejected])
  | @log call ok hcall =>
    have hworked : LiveInv { s with
        logWork := s.logWork.erase call
        trace := if ok then s.trace ++ [.logged call] else s.trace } :=
      h.of_eq rfl rfl rfl rfl rfl rfl rfl rfl rfl rfl
    refine hworked.of_lane rfl (by simp) (by simp) (by simp) ?_ ?_ fun m heq ↦ ?_
    · intro heq
      rcases hl : s.lane with _ | _ | _ | _ | _ | ⟨_, _ | _⟩ <;> simp_all [DriverLane.raced]
    · intro heq
      rcases hl : s.lane with _ | _ | _ | _ | _ | ⟨_, _ | _⟩ <;> simp_all [DriverLane.raced]
    · have hraced := h.raced m
      have hrace : ok = true ∨ ∀ call, s.lane ≠ .draining call none := hok
      rcases hl : s.lane with _ | _ | _ | _ | _ | ⟨_, _ | _⟩ <;> simp_all [DriverLane.raced]
  | proceed hlane =>
    exact h.endCommit (by simp [hlane, DriverLane.committing?])
      (by simp [hlane, DriverLane.finalizing?])
  | proceedFull hlane =>
    exact h.draining (by simp [hlane, DriverLane.committing?])
      (by simp [hlane, DriverLane.finalizing?])
  | failProceed hlane => exact absurd hlane (h.raced _)

/-!
## The schedule of a code run

What holds in every run, what holds while settle events keep up with the lane, and what holds while
no stage rejects.
-/

/-- Order, bound, exclusive barrier, and the end of the run. -/
structure Scheduled (s : CodeRun) : Prop where
  starts : s.starts.Pairwise (· < ·)
  commits : s.commits.Pairwise (· < ·)
  postExecutions : s.postExecutions.Pairwise (· < ·)
  bodies : s.running.length ≤ s.maxParallel
  /-- From the start of an exclusive call to the end of its commit, other calls rest. -/
  exclusive : ∀ n front mid, s.trace = front ++ .start n .exclusive :: mid → .commitEnd n ∉ mid →
    (∀ e ∈ mid, ∀ m ∈ e.busy, m = n) ∧ ∀ m ∈ s.running, m = n
  ending : ∀ front back, s.trace = front ++ .runOver :: back → ∀ n mode, .start n mode ∉ back
  loggedOnce : s.logs.Nodup
  loggedStarted : ∀ front n back, s.trace = front ++ .logged n :: back →
    ∃ mode, .start n mode ∈ front

/-- Settle events in the order of submission, and within an exclusive barrier only its own. -/
structure LogsScheduled (s : CodeRun) : Prop where
  logs : s.logs.Pairwise (· < ·)
  exclusive : ∀ n front mid, s.trace = front ++ .start n .exclusive :: mid → .commitEnd n ∉ mid →
    ∀ m, .logged m ∈ mid → m = n

/-- Neither a stage nor a body is running, and the lane has nothing to wake up for. -/
def Quiet (s : CodeRun) : Prop :=
  (s.lane = .idle ∨ s.lane = .asleep false) ∧ s.running = [] ∧ s.inFlight = []

/-- Once the run is over and quiet, the promise of every submitted call has settled. -/
def Answered (s : CodeRun) : Prop :=
  s.aborted = true → s.Quiet → ∀ n, 1 ≤ n → n ≤ s.dispatches → n ∈ s.answered

/-- The steps of a run all meet a condition. -/
def Along (P : CodeRun → CodeRunAction → Prop) : CodeRun → List CodeRunAction → Prop
  | _, [] => True
  | s, action :: rest => P s action ∧ Along P (s.step action) rest

/-- A run that has just begun. -/
def start (agent : Bool) (maxParallel : ℕ) : CodeRun := { agent, maxParallel }

/-! ## Every run -/

structure RunInv (s : CodeRun) : Prop where
  max : 0 < s.maxParallel
  line : s.LineInv
  stages : s.StageInv
  pool : s.PoolInv
  ending : s.OverInv
  barriers : s.BarrierInv
  logs : s.LogInv

theorem maxParallel_move {action : CodeRunAction} {t : CodeRun} (h : Move s action t) :
    t.maxParallel = s.maxParallel := by
  cases h <;> rfl

theorem RunInv.step (h : s.RunInv) (action : CodeRunAction) : (s.step action).RunInv := by
  have hmove := s.move_step action
  exact ⟨maxParallel_move hmove ▸ h.max, h.line.move hmove, h.stages.move h.line hmove,
    h.pool.move h.max h.line h.stages hmove, h.ending.move hmove,
    h.barriers.move h.line h.pool hmove, h.logs.move h.stages hmove⟩

theorem RunInv.run (h : s.RunInv) (actions : List CodeRunAction) : (s.run actions).RunInv := by
  induction actions generalizing s with
  | nil => exact h
  | cons action rest ih => exact ih (h.step action)

theorem start_runInv (agent : Bool) {maxParallel : ℕ} (hmax : 0 < maxParallel) :
    (start agent maxParallel).RunInv := by
  refine ⟨hmax, ?_, ?_, ?_, ?_, ?_, ?_⟩
  · constructor <;> simp [start, line, CodeRun.starts, CodeRun.commits]
  · constructor <;> simp [start, CodeRun.postExecutions, CodeRun.commits, CodeRun.starts,
      DriverLane.finalizing?, DriverLane.committing?, DriverLane.preparing?]
  · constructor <;> simp [start, DriverLane.preparing?]
  · constructor <;> simp [start]
  · intro n front mid hsplit
    simp [start] at hsplit
  · constructor <;> simp [start, CodeRun.logs]

theorem RunInv.scheduled (h : s.RunInv) : s.Scheduled where
  starts := (List.pairwise_append.mp h.line.starts).1
  commits := by
    have hline := h.line.line
    rw [CodeRun.line, List.append_assoc] at hline
    exact (List.pairwise_append.mp hline).1
  postExecutions := h.stages.postExecuted
  bodies := h.pool.bodies
  exclusive n front mid hsplit hopen :=
    have hbarrier := h.barriers n front mid hsplit hopen
    ⟨hbarrier.1, hbarrier.2.alone⟩
  ending := h.ending.quiet
  loggedOnce := (List.nodup_append.mp h.logs.once).1
  loggedStarted := h.logs.started

/-! ## Runs under a condition -/

theorem LogOrderInv.run (h : s.RunInv) (horder : s.LogOrderInv) {actions : List CodeRunAction}
    (hok : Along KeepsUp s actions) : (s.run actions).LogOrderInv := by
  induction actions generalizing s with
  | nil => exact horder
  | cons action rest ih =>
    obtain ⟨hfirst, hrest⟩ := hok
    exact ih (h.step action)
      (horder.move h.stages h.logs h.barriers hfirst (s.move_step action)) hrest

theorem LiveInv.run (h : s.RunInv) (hlive : s.LiveInv) {actions : List CodeRunAction}
    (hok : Along Unrejected s actions) : (s.run actions).LiveInv := by
  induction actions generalizing s with
  | nil => exact hlive
  | cons action rest ih =>
    obtain ⟨hfirst, hrest⟩ := hok
    exact ih (h.step action) (hlive.move h.max h.pool hfirst (s.move_step action)) hrest

theorem LogOrderInv.scheduled (h : s.LogOrderInv) : s.LogsScheduled where
  logs := (List.pairwise_append.mp h.line).1
  exclusive n front mid hsplit hopen := (h.barrier n front mid hsplit hopen).1

/-- A quiet lane has nothing left to deal with. -/
theorem LiveInv.answers (h : s.LiveInv) : s.Answered := by
  rintro - ⟨hlane, -, hflights⟩ n h1 hn
  have hidle : s.lane = .idle := hlane.resolve_right fun hasleep ↦ h.asleep hasleep hflights
  obtain ⟨hpending, hqueue, -⟩ := h.idle hidle
  simpa [hpending, hqueue, hidle, DriverLane.finalizing?] using h.answered n h1 hn

theorem start_logOrderInv (agent : Bool) (maxParallel : ℕ) :
    (start agent maxParallel).LogOrderInv := by
  constructor <;> simp [start, CodeRun.logs]

theorem start_liveInv (agent : Bool) (maxParallel : ℕ) : (start agent maxParallel).LiveInv := by
  constructor
  case answered =>
    intro n h1 hn
    exact absurd (h1.trans hn) (by simp [start])
  all_goals simp [start]

/-- A call goes through its stages in order, and the pool is bounded from the preparation on. -/
structure Staged (s : CodeRun) : Prop where
  started : ∀ n ∈ s.starts, n ≤ s.dispatches
  committed : ∀ n ∈ s.commits, n ∈ s.starts
  postExecuted : ∀ n ∈ s.postExecutions, n ∈ s.commits
  logged : ∀ n ∈ s.logs, n ∈ s.postExecutions
  pooled : s.running ⊆ s.inFlight ∧ s.inFlight ⊆ s.starts ∧ s.inFlight.length ≤ s.maxParallel

/-- **No call skips a stage**, in any run with a positive limit. -/
theorem run_staged (agent : Bool) (maxParallel : ℕ) (actions : List CodeRunAction) :
    ((start agent (maxParallel + 1)).run actions).Staged := by
  have h := (start_runInv agent (Nat.succ_pos maxParallel)).run actions
  exact ⟨h.line.startsSubmitted, h.stages.committed, h.stages.postExecutedCommits,
    fun n hn ↦ h.logs.finalized n (List.mem_append_left _ hn), h.pool.flying, h.pool.started,
    h.pool.bounded⟩

/-- **The scheduler of code mode.** Every run is scheduled. Its settle events are as well as long as
they keep up with the lane, and as long as no stage rejects every call is answered in the end. -/
theorem run_scheduled (agent : Bool) {maxParallel : ℕ} (hmax : 1 ≤ maxParallel)
    (actions : List CodeRunAction) :
    ((start agent maxParallel).run actions).Scheduled ∧
      (Along KeepsUp (start agent maxParallel) actions →
        ((start agent maxParallel).run actions).LogsScheduled) ∧
      (Along Unrejected (start agent maxParallel) actions →
        ((start agent maxParallel).run actions).Answered) := by
  have hstart := start_runInv agent hmax
  refine ⟨(hstart.run actions).scheduled, fun hok ↦ ?_, fun hok ↦ ?_⟩
  · exact (LogOrderInv.run hstart (start_logOrderInv agent maxParallel) hok).scheduled
  · exact (LiveInv.run hstart (start_liveInv agent maxParallel) hok).answers

/-- An exclusive call and a parallel one, with the program done in the meantime. -/
def smoothRun : List CodeRunAction :=
  [.submit, .submit, .pass .exclusive true, .prepared .dispatch, .bodySettled 1 true,
    .flightSettled 1, .pass .parallel true, .finalized true, .logSettled 1 true, .complete,
    .pass .parallel true, .pass .parallel true]

/-- The first call's `prepare` rejects, and the program comes back. -/
def rejectedRun : List CodeRunAction :=
  [.submit, .pass .parallel true, .prepared .rejected, .complete, .pass .parallel true]

theorem run_scheduled_smooth :
    ((start true 2).run smoothRun).Scheduled ∧ ((start true 2).run smoothRun).LogsScheduled ∧
      ((start true 2).run smoothRun).Answered ∧
      ((start true 2).run smoothRun).aborted = true ∧ ((start true 2).run smoothRun).Quiet ∧
      ((start true 2).run smoothRun).trace =
        [.start 1 .exclusive, .bodyStart 1, .bodyEnd 1, .commitStart 1, .postExecuted 1,
          .commitEnd 1, .logged 1, .runOver] ∧
      ((start true 2).run smoothRun).answered = [1, 2] := by
  have hmax : 1 ≤ 2 := by decide
  have h := run_scheduled true hmax smoothRun
  have hkeeps : Along KeepsUp (start true 2) smoothRun :=
    ⟨trivial, trivial, fun _ ↦ rfl, trivial, trivial, trivial, trivial, trivial,
      fun _ hm ↦ (List.mem_singleton.mp hm).ge, trivial,
      trivial, trivial, trivial⟩
  have hok : Along Unrejected (start true 2) smoothRun :=
    ⟨trivial, trivial, fun _ ↦ rfl, by simp [Unrejected], rfl, trivial, fun _ ↦ rfl, rfl, .inl rfl,
      trivial, fun _ ↦ rfl, fun _ ↦ rfl, trivial⟩
  exact ⟨h.1, h.2.1 hkeeps, h.2.2 hok, rfl, ⟨.inl rfl, rfl, rfl⟩, rfl, rfl⟩

/-- The call stays in the commit queue, and the lane sleeps over it. -/
theorem not_answered_rejected : ¬ ((start true 2).run rejectedRun).Answered := by
  intro h
  have hanswered := h rfl ⟨.inr rfl, rfl, rfl⟩ 1 le_rfl (by decide)
  exact absurd hanswered (by decide)

end CodeRun

end XxAgent
