import Mathlib.Data.Prod.Lex
import XxAgent.Agent.ToolCallsPool

/-!
# Progress of the tool-call scheduler

A rank falls with every step on which the scheduler goes on or a dispatch settles, and a scheduler
that has not come to its end has such a step. So every run can be completed, and none goes on for
ever.
-/

namespace XxAgent

namespace ToolCalls

open ToolTrace

variable {Context Error : Type*} {s : ToolCalls Context Error}

/-! ## The rank -/

/-- What is still to be done outside the point. -/
def load (s : ToolCalls Context Error) : ℕ :=
  20 * (s.calls.length - (callEvents s.trace).length) +
    10 * (s.calls.length - (resultEvents s.trace).length) +
    2 * s.group.running.length + 6 * s.group.inFlight.length

/-- How far a point is from the end of its group. -/
def weight (s : ToolCalls Context Error) : ℕ :=
  match s.point with
  | .returned _ | .rejected _ | .uncommitted => 0
  | .drain => 1
  | .thrown _ => 2
  | .race | .skip _ | .skipped _ _ => 3
  -- Only a group that has not been aborted goes on to classify another call.
  | .filled => if s.group.aborted then 4 else 6
  | .classify => 5
  | .classifying => 7
  | .ready | .finalize | .finish => 8
  | .placed | .accept _ _ => 9
  | .prepare => 18

/-- The contexts still to be accepted. -/
def toAccept : ToolCallsPoint Context Error → ℕ
  | .accept contexts _ => contexts.length
  | _ => 0

def rank (s : ToolCalls Context Error) : ℕ ×ₗ ℕ :=
  toLex (s.load + s.weight, toAccept s.point)

theorem rank_lt {s' : ToolCalls Context Error}
    (h : s'.load + s'.weight < s.load + s.weight) : s'.rank < s.rank :=
  Prod.Lex.toLex_lt_toLex.mpr (.inl h)

/-- The load and the weight are at most so much. -/
def Within (s : ToolCalls Context Error) (bound : ℕ) : Prop :=
  s.load + s.weight ≤ bound

theorem Within.rank_lt {s' : ToolCalls Context Error} {bound : ℕ} (h : Within s' bound)
    (hlt : bound < s.load + s.weight) : s'.rank < s.rank :=
  ToolCalls.rank_lt (Nat.lt_of_le_of_lt h hlt)

theorem Within.mono {bound bound' : ℕ} (h : Within s bound) (hle : bound ≤ bound') :
    Within s bound' :=
  Nat.le_trans h hle

theorem within_failWith (error : Error) : Within (s.failWith error) (s.load + 2) :=
  Nat.le_refl _

theorem within_skipFrom (index : ℕ) : Within (s.skipFrom index) (s.load + 3) := by
  rw [skipFrom]
  split_ifs
  · exact Nat.le_refl _
  · exact Nat.le_add_right _ 3

theorem within_drainPool :
    Within s.drainPool (s.load + if s.group.aborted then 3 else 5) := by
  rw [drainPool]
  split_ifs with hflight haborted haborted
  · rw [endGroup, if_pos haborted]
    exact within_skipFrom _
  · rw [endGroup, if_neg haborted]
    split_ifs
    · exact Nat.le_add_right _ 5
    · rw [Within, weight]
      simp only
      split_ifs
      · exact Nat.le_refl _
      · exact Nat.le_add_right _ 5
  · exact Nat.le_refl _
  · exact Nat.add_le_add_left (by decide : 3 ≤ 5) _

/-- A call that is started has been counted off. -/
theorem within_startCall (h : (callEvents s.trace).length < s.calls.length)
    (vetoed : Option Error) : Within (s.startCall vetoed) (s.load + 2) := by
  rcases vetoed with _ | error
  · simp [Within, startCall, load, weight]
    omega
  · exact within_failWith error

theorem within_fillPool
    (h : s.group.nextToStart < s.group.size → (callEvents s.trace).length < s.calls.length)
    (vetoed : Option Error) : Within (s.fillPool vetoed) (s.load + 7) := by
  rw [fillPool]
  split_ifs with hgo
  · exact Nat.le_refl _
  · exact (within_startCall (h hgo.2.1) vetoed).mono (Nat.add_le_add_left (by decide) _)
  · rw [Within, weight]
    simp only
    split_ifs
    · exact Nat.add_le_add_left (by decide : 4 ≤ 7) _
    · exact Nat.le_succ _

theorem within_commitDone
    (h : s.group.nextToStart < s.group.size → (callEvents s.trace).length < s.calls.length)
    (vetoed : Option Error) : Within (s.commitDone vetoed) (s.load + 7) := by
  rw [commitDone]
  rcases s.group.schedulerFailure with _ | error
  · apply within_fillPool _ vetoed
    exact h
  · exact (within_failWith error).mono (Nat.add_le_add_left (by decide) _)

theorem within_commitReady : Within s.commitReady (s.load + 8) := by
  rw [commitReady]
  split_ifs
  · rcases s.group.slots s.group.committed with _ | _ | _
    all_goals exact Nat.le_refl _
  · exact Nat.le_refl _

theorem within_commitUnfailed : Within s.commitUnfailed (s.load + 8) := by
  rw [commitUnfailed]
  rcases s.group.schedulerFailure with _ | error
  · exact within_commitReady
  · exact (within_failWith error).mono (Nat.add_le_add_left (by decide) _)

/-- A call that has not been started has not been appended. -/
theorem Pool.unstarted (h : Pool s) (hstarted : s.group.started ≤ s.group.nextToStart)
    (hlt : s.group.nextToStart < s.group.size) :
    (callEvents s.trace).length < s.calls.length := by
  have hsize := h.size
  rw [h.calls]
  omega

/-! ## Every step takes the scheduler further -/

theorem rank_runGroup (h : Ok s) (hpoint : s.point = .classify)
    (hlimit : 0 < s.maxParallelToolCalls) (mode : ToolExecutionMode) (vetoed : Option Error) :
    (s.runGroup mode vetoed).rank < s.rank := by
  have hat := h.at_
  rw [hpoint] at hat
  obtain ⟨hlt, hquiet, -, -⟩ := hat
  have hload : s.load = 20 * (s.calls.length - s.next) + 10 * (s.calls.length - s.next) +
      2 * s.group.running.length + 6 * s.group.inFlight.length := by
    rw [load, hquiet.results, hquiet.calls]
  obtain ⟨size, hsize, heq⟩ : ∃ size, 0 < size ∧
      (if mode = .parallel then s.calls.length - s.next else 1) = size := by
    refine ⟨_, ?_, rfl⟩
    split_ifs
    · omega
    · exact Nat.one_pos
  rw [runGroup, heq, fillPool]
  by_cases haborted : s.aborted = false
  · -- Starting a call takes more off the load than `prepare` adds.
    rw [if_pos ⟨haborted, hsize, hlimit⟩, if_neg (by simp)]
    rcases vetoed with _ | error
    · apply rank_lt
      simp [startCall, load, weight, hpoint, hquiet.calls, hquiet.results]
      omega
    · apply rank_lt
      simp [startCall, failWith, load, weight, hpoint]
      omega
  · have hgroup : s.aborted = true := by simpa using haborted
    rw [if_neg (by simp [haborted])]
    apply rank_lt
    simp [load, weight, hpoint, hgroup]
    omega

theorem rank_startCall (h : Ok s) (hpoint : s.point = .classifying) (vetoed : Option Error) :
    (s.startCall vetoed).rank < s.rank := by
  have hat := h.at_
  rw [hpoint] at hat
  obtain ⟨⟨hpool, -, hpaused⟩, -, hlt, -, -⟩ := hat
  apply (within_startCall (hpool.unstarted hpaused.le hlt) vetoed).rank_lt
  simp [hpoint, weight]

theorem rank_prepared (hpoint : s.point = .prepare) (preparation : ToolPreparation) :
    (s.prepared preparation).rank < s.rank := by
  rw [ToolCalls.prepared]
  rcases s.group.schedulerFailure with _ | error
  · apply rank_lt
    rcases preparation with _ | _ | _
    all_goals
      simp [place, load, weight, hpoint]
      try omega
  · apply (within_failWith error).rank_lt
    simp [hpoint, weight]

theorem rank_commitResult (h : Ok s) (hpoint : s.point = .finalize ∨ s.point = .finish)
    (result : ToolExecutionResult Context) (vetoed : Option Error) :
    (s.commitResult result vetoed).rank < s.rank := by
  have hweight : s.weight = 8 := by
    rcases hpoint with hpoint | hpoint
    · rw [weight, hpoint]
    · rw [weight, hpoint]
  have hat : At s .finish := by
    have hat := h.at_
    rcases hpoint with hpoint | hpoint
    all_goals
      rw [hpoint] at hat
      exact hat
  obtain ⟨⟨hpool, hcommitted, -⟩, hlt⟩ := hat
  have hsize := hpool.size
  have hstarted := hpool.started
  have hresults := hcommitted.results
  rcases vetoed with _ | error
  · apply rank_lt
    rw [hweight]
    simp [commitResult, load, weight]
    omega
  · apply (within_failWith error).rank_lt
    omega

theorem rank_accepted {concludesTurn : Bool} (hpoint : s.point = .accept [] concludesTurn) :
    (commitReady { s with group := { s.group with
      concluded := s.group.concluded || concludesTurn
      committed := s.group.committed + 1 } }).rank < s.rank := by
  apply within_commitReady.rank_lt
  simp [hpoint, weight, load]

theorem rank_ready (h : Ok s) (hpoint : s.point = .ready) (vetoed : Option Error) :
    (s.commitDone vetoed).rank < s.rank := by
  have hat := h.at_
  rw [hpoint] at hat
  obtain ⟨⟨hpool, -, hpaused⟩, -⟩ := hat
  apply (within_commitDone (hpool.unstarted hpaused.le) vetoed).rank_lt
  simp [hpoint, weight]

theorem rank_filled (hpoint : s.point = .filled) : s.drainPool.rank < s.rank := by
  apply within_drainPool.rank_lt
  rw [weight, hpoint]
  simp only
  split_ifs
  · exact Nat.lt_succ_self _
  · exact Nat.lt_succ_self _

theorem rank_raced (hpoint : s.point = .race) {position : ℕ}
    (hmem : position ∈ s.group.inFlight) : (s.raced position).rank < s.rank := by
  apply within_commitUnfailed.rank_lt
  have hpos := List.length_pos_of_mem hmem
  simp [hpoint, weight, load, List.length_erase_of_mem hmem]
  omega

/-- **What the scheduler does takes it further, or is nothing.** -/
theorem rank_resume (h : Ok s) (hlimit : 0 < s.maxParallelToolCalls)
    (answer : ToolAnswer Context Error) (vetoed : Option Error) :
    s.resume answer vetoed = s ∨ (s.resume answer vetoed).rank < s.rank := by
  have hfail (error : Error) (hweight : 2 < s.weight) : (s.failWith error).rank < s.rank :=
    (within_failWith error).rank_lt (Nat.add_lt_add_left hweight _)
  rcases hpoint : s.point with _ | _ | _ | _ | _ | _ | ⟨_ | ⟨context, contexts⟩, concludesTurn⟩ | _ |
    _ | _ | error | _ | index | ⟨index, callSeq⟩ | concluded | error | _
  case classify =>
    rcases answer with mode | _ | _ | _ | error | _
    all_goals simp only [ToolCalls.resume.eq_def, hpoint]
    case mode => exact .inr (rank_runGroup h hpoint hlimit mode vetoed)
    case threw => exact .inr (rank_lt (by simp [load, weight, hpoint]))
    all_goals exact .inl trivial
  case classifying =>
    rcases answer with (_ | _) | _ | _ | _ | error | _
    all_goals simp only [ToolCalls.resume.eq_def, hpoint]
    case mode.exclusive =>
      refine .inr (rank_lt ?_)
      simp only [load, weight, hpoint]
      split_ifs
      · omega
      · omega
    case mode.parallel => exact .inr (rank_startCall h hpoint vetoed)
    case threw => exact .inr (hfail error (by simp [weight, hpoint]))
    all_goals exact .inl trivial
  case prepare =>
    rcases answer with _ | preparation | _ | _ | error | _
    all_goals simp only [ToolCalls.resume.eq_def, hpoint]
    case prepared => exact .inr (rank_prepared hpoint preparation)
    case threw => exact .inr (hfail error (by simp [weight, hpoint]))
    all_goals exact .inl trivial
  case placed =>
    rcases answer with _ | _ | _ | _ | _ | _
    all_goals simp only [ToolCalls.resume.eq_def, hpoint]
    case done => exact .inr (within_commitUnfailed.rank_lt (by simp [weight, hpoint]))
    all_goals exact .inl trivial
  case finalize =>
    rcases answer with _ | _ | result | _ | error | _
    all_goals simp only [ToolCalls.resume.eq_def, hpoint]
    case result => exact .inr (rank_commitResult h (.inl hpoint) result vetoed)
    case threw => exact .inr (hfail error (by simp [weight, hpoint]))
    all_goals exact .inl trivial
  case finish =>
    rcases answer with _ | _ | result | _ | error | _
    all_goals simp only [ToolCalls.resume.eq_def, hpoint]
    case result => exact .inr (rank_commitResult h (.inr hpoint) result vetoed)
    case threw => exact .inr (hfail error (by simp [weight, hpoint]))
    all_goals exact .inl trivial
  case accept.nil =>
    rcases answer with _ | _ | _ | _ | _ | _
    all_goals simp only [ToolCalls.resume.eq_def, hpoint]
    case done => exact .inr (rank_accepted hpoint)
    all_goals exact .inl trivial
  case accept.cons =>
    rcases answer with _ | _ | _ | _ | error | _
    all_goals simp only [ToolCalls.resume.eq_def, hpoint]
    case done =>
      refine .inr (Prod.Lex.toLex_lt_toLex.mpr (.inr ⟨?_, ?_⟩))
      · simp [load, weight, hpoint]
      · simp [toAccept, hpoint]
    case threw => exact .inr (hfail error (by simp [weight, hpoint]))
    all_goals exact .inl trivial
  case ready =>
    rcases answer with _ | _ | _ | _ | _ | _
    all_goals simp only [ToolCalls.resume.eq_def, hpoint]
    case done => exact .inr (rank_ready h hpoint vetoed)
    all_goals exact .inl trivial
  case filled =>
    rcases answer with _ | _ | _ | _ | _ | _
    all_goals simp only [ToolCalls.resume.eq_def, hpoint]
    case done => exact .inr (rank_filled hpoint)
    all_goals exact .inl trivial
  case race =>
    rcases answer with _ | _ | _ | position | _ | _
    all_goals simp only [ToolCalls.resume.eq_def, hpoint]
    case raced =>
      split_ifs with hsettled
      · exact .inr (rank_raced hpoint hsettled.1)
      · exact .inl rfl
    all_goals exact .inl trivial
  case thrown =>
    rcases answer with _ | _ | _ | _ | _ | _
    all_goals simp only [ToolCalls.resume.eq_def, hpoint]
    case done => exact .inr (rank_lt (by simp [load, weight, hpoint]))
    all_goals exact .inl trivial
  case drain =>
    rcases answer with _ | _ | _ | _ | _ | _
    all_goals simp only [ToolCalls.resume.eq_def, hpoint]
    case done =>
      rcases s.group.schedulerFailure with _ | error
      · exact .inl rfl
      · simp only
        split_ifs
        · exact .inr (rank_lt (by simp [load, weight, hpoint]))
        · exact .inl rfl
    all_goals exact .inl trivial
  case skip =>
    have hat := h.at_
    rw [hpoint] at hat
    have hlt : index < s.calls.length := hat.2.1
    have hcalls := hat.2.2.calls
    rcases answer with _ | _ | _ | _ | _ | _
    all_goals simp only [ToolCalls.resume.eq_def, hpoint]
    case done =>
      rcases vetoed with _ | error
      · refine .inr (rank_lt ?_)
        simp [load, weight, hpoint]
        omega
      · exact .inr (rank_lt (by simp [load, weight, hpoint]))
    all_goals exact .inl trivial
  case skipped =>
    have hat := h.at_
    rw [hpoint] at hat
    have hlt : index < s.calls.length := hat.2.1
    have hcalls : (callEvents s.trace).length = index + 1 := hat.2.2.2.1
    have hresults := congrArg List.length hat.2.2.2.2.1
    simp only [List.length_append, List.length_singleton] at hresults
    rcases answer with _ | _ | _ | _ | _ | _
    all_goals simp only [ToolCalls.resume.eq_def, hpoint]
    case done =>
      rcases vetoed with _ | error
      · apply Or.inr
        apply (within_skipFrom _).rank_lt
        simp [load, weight, hpoint]
        omega
      · exact .inr (rank_lt (by simp [load, weight, hpoint]))
    all_goals exact .inl trivial
  all_goals
    rcases answer with _ | _ | _ | _ | _ | _
    all_goals
      simp only [ToolCalls.resume.eq_def, hpoint]
      exact .inl trivial

theorem rank_settle {position : ℕ} (hawaits : s.awaits = true)
    (hmem : position ∈ s.group.running) (outcome : Except Error Bool) :
    (s.settle position outcome).rank < s.rank := by
  rw [ToolCalls.settle, if_pos ⟨hawaits, hmem⟩]
  have hpos := List.length_pos_of_mem hmem
  apply rank_lt
  rcases outcome with error | needsPost
  all_goals
    simp [load, weight, List.length_erase_of_mem hmem]
    omega

/-! ## Runs come to an end -/

/-- The scheduler has returned or rejected. -/
def Ended (s : ToolCalls Context Error) : Prop :=
  (∃ concluded, s.point = .returned concluded) ∨ ∃ error, s.point = .rejected error

/-- The calls and the bound on the pool stay as they are. -/
structure SameCalls (s s' : ToolCalls Context Error) : Prop where
  calls : s'.calls = s.calls
  limit : s'.maxParallelToolCalls = s.maxParallelToolCalls

theorem sameCalls_endGroup : SameCalls s s.endGroup := by
  rw [endGroup]
  split_ifs
  all_goals exact ⟨rfl, rfl⟩

theorem sameCalls_drainPool : SameCalls s s.drainPool := by
  rw [drainPool]
  split_ifs
  · exact sameCalls_endGroup
  · exact ⟨rfl, rfl⟩

theorem sameCalls_startCall (vetoed : Option Error) : SameCalls s (s.startCall vetoed) := by
  rcases vetoed with _ | error
  all_goals exact ⟨rfl, rfl⟩

theorem sameCalls_fillPool (vetoed : Option Error) : SameCalls s (s.fillPool vetoed) := by
  rw [fillPool]
  split_ifs
  · exact ⟨rfl, rfl⟩
  · exact sameCalls_startCall vetoed
  · exact ⟨rfl, rfl⟩

theorem sameCalls_commitDone (vetoed : Option Error) : SameCalls s (s.commitDone vetoed) := by
  rw [commitDone]
  rcases s.group.schedulerFailure with _ | error
  · obtain ⟨hcalls, hlimit⟩ := sameCalls_fillPool (s := { s with group := { s.group with
      aborted := s.group.aborted || s.aborted } }) vetoed
    exact ⟨hcalls, hlimit⟩
  · exact ⟨rfl, rfl⟩

theorem sameCalls_commitReady : SameCalls s s.commitReady := by
  rw [commitReady]
  split_ifs
  · rcases s.group.slots s.group.committed with _ | _ | _
    all_goals exact ⟨rfl, rfl⟩
  · exact ⟨rfl, rfl⟩

theorem sameCalls_commitUnfailed : SameCalls s s.commitUnfailed := by
  rw [commitUnfailed]
  rcases s.group.schedulerFailure with _ | error
  · exact sameCalls_commitReady
  · exact ⟨rfl, rfl⟩

theorem sameCalls_prepared (preparation : ToolPreparation) :
    SameCalls s (s.prepared preparation) := by
  rw [prepared]
  rcases s.group.schedulerFailure with _ | error
  · rcases preparation with _ | _ | _
    all_goals exact ⟨rfl, rfl⟩
  · exact ⟨rfl, rfl⟩

theorem sameCalls_resume (answer : ToolAnswer Context Error) (vetoed : Option Error) :
    SameCalls s (s.resume answer vetoed) := by
  unfold resume
  split
  case h_1 mode => exact ⟨(sameCalls_fillPool vetoed).calls, (sameCalls_fillPool vetoed).limit⟩
  case h_3 => exact sameCalls_startCall vetoed
  case h_6 => exact sameCalls_prepared _
  case h_8 => exact sameCalls_commitUnfailed
  case h_15 => exact ⟨sameCalls_commitReady.calls, sameCalls_commitReady.limit⟩
  case h_16 => exact sameCalls_commitDone vetoed
  case h_17 => exact sameCalls_drainPool
  case h_18 =>
    split_ifs
    · exact ⟨sameCalls_commitUnfailed.calls, sameCalls_commitUnfailed.limit⟩
    · exact ⟨rfl, rfl⟩
  case h_20 =>
    rcases s.group.schedulerFailure with _ | error
    · exact ⟨rfl, rfl⟩
    · simp only
      split_ifs
      all_goals exact ⟨rfl, rfl⟩
  all_goals
    try rcases vetoed with _ | error
    all_goals exact ⟨rfl, rfl⟩

theorem sameCalls_step (action : ToolCallsAction Context Error) : SameCalls s (s.step action) := by
  rcases action with _ | _ | ⟨position, outcome⟩ | ⟨answer, vetoed⟩
  · rw [step]
    split_ifs
    all_goals exact ⟨rfl, rfl⟩
  · exact ⟨rfl, rfl⟩
  · rw [step, settle]
    split_ifs
    · rcases outcome with error | needsPost
      all_goals exact ⟨rfl, rfl⟩
    · exact ⟨rfl, rfl⟩
  · exact sameCalls_resume answer vetoed

end ToolCalls

namespace ToolCallsAction

variable {Context Error : Type*}

/-- Nothing throws. -/
def Faultless : ToolCallsAction Context Error → Prop
  | .abort | .otherAppend => True
  | .settle _ outcome => ∃ needsPost, outcome = .ok needsPost
  | .resume answer vetoed => (∀ error, answer ≠ .threw error) ∧ vetoed = none

/-- The scheduler goes on, or a dispatch settles. -/
def Advances : ToolCallsAction Context Error → Prop
  | .abort | .otherAppend => False
  | .settle _ _ | .resume _ _ => True

end ToolCallsAction

namespace ToolCalls

open ToolTrace

variable {Context Error : Type*} {s : ToolCalls Context Error}

theorem rank_step (h : Ok s) (hlimit : 0 < s.maxParallelToolCalls)
    {action : ToolCallsAction Context Error} (hadvances : action.Advances) :
    s.step action = s ∨ (s.step action).rank < s.rank := by
  rcases action with _ | _ | ⟨position, outcome⟩ | ⟨answer, vetoed⟩
  · exact hadvances.elim
  · exact hadvances.elim
  · by_cases hsettles : s.awaits ∧ position ∈ s.group.running
    · exact .inr (rank_settle hsettles.1 hsettles.2 outcome)
    · exact .inl (by rw [step, settle, if_neg hsettles])
  · exact rank_resume h hlimit answer vetoed

theorem rank_same {action : ToolCallsAction Context Error} (hother : ¬action.Advances) :
    (s.step action).rank = s.rank := by
  rcases action with _ | _ | _ | _
  · rw [step]
    split_ifs
    · rfl
    · simp [rank, load, weight]
  · rfl
  · exact absurd trivial hother
  · exact absurd trivial hother

/-- **A scheduler that has not come to its end can go on**, without anything throwing. -/
theorem advances (h : Ok s) (hlimit : 0 < s.maxParallelToolCalls) (hend : ¬s.Ended) :
    ∃ action : ToolCallsAction Context Error,
      action.Faultless ∧ (s.step action).rank < s.rank := by
  have hgo (answer : ToolAnswer Context Error) (hanswer : ∀ error, answer ≠ .threw error)
      (hlt : (s.resume answer none).rank < s.rank) :
      ∃ action : ToolCallsAction Context Error,
        action.Faultless ∧ (s.step action).rank < s.rank :=
    ⟨.resume answer none, ⟨hanswer, rfl⟩, hlt⟩
  have hat := h.at_
  rcases hpoint : s.point with _ | _ | _ | _ | _ | _ | ⟨_ | ⟨context, contexts⟩, concludesTurn⟩ | _ |
    _ | _ | error | _ | index | ⟨index, callSeq⟩ | concluded | error | _
  all_goals rw [hpoint] at hat
  case classify =>
    apply hgo (.mode .parallel) (by simp)
    simp only [resume.eq_def, hpoint]
    exact rank_runGroup h hpoint hlimit .parallel none
  case classifying =>
    apply hgo (.mode .parallel) (by simp)
    simp only [resume.eq_def, hpoint]
    exact rank_startCall h hpoint none
  case prepare =>
    apply hgo (.prepared .dispatch) (by simp)
    simp only [resume.eq_def, hpoint]
    exact rank_prepared hpoint .dispatch
  case placed =>
    apply hgo .done (by simp)
    simp only [resume.eq_def, hpoint]
    exact within_commitUnfailed.rank_lt (by simp [weight, hpoint])
  case finalize =>
    apply hgo (.result skippedToolResult) (by simp)
    simp only [resume.eq_def, hpoint]
    exact rank_commitResult h (.inl hpoint) _ none
  case finish =>
    apply hgo (.result skippedToolResult) (by simp)
    simp only [resume.eq_def, hpoint]
    exact rank_commitResult h (.inr hpoint) _ none
  case accept.nil =>
    apply hgo .done (by simp)
    simp only [resume.eq_def, hpoint]
    exact rank_accepted hpoint
  case accept.cons =>
    apply hgo .done (by simp)
    rcases rank_resume h hlimit .done none with hsame | hlt
    · have hpoints := congrArg point hsame
      simp [resume.eq_def, hpoint] at hpoints
    · exact hlt
  case ready =>
    apply hgo .done (by simp)
    simp only [resume.eq_def, hpoint]
    exact rank_ready h hpoint none
  case filled =>
    apply hgo .done (by simp)
    simp only [resume.eq_def, hpoint]
    exact rank_filled hpoint
  case race =>
    obtain ⟨position, hmem⟩ := List.exists_mem_of_ne_nil _ hat.2
    by_cases hrunning : position ∈ s.group.running
    · refine ⟨.settle position (.ok true), ⟨true, rfl⟩, rank_settle ?_ hrunning _⟩
      simp [awaits, hpoint]
    · apply hgo (.raced position) (by simp)
      simp only [resume.eq_def, hpoint]
      rw [if_pos ⟨hmem, hrunning⟩]
      exact rank_raced hpoint hmem
  case thrown =>
    apply hgo .done (by simp)
    simp only [resume.eq_def, hpoint]
    exact rank_lt (by simp [load, weight, hpoint])
  case drain =>
    obtain ⟨-, error, hfailure⟩ := hat
    rcases hrunning : s.group.running with _ | ⟨position, running⟩
    · apply hgo .done (by simp)
      simp only [resume.eq_def, hpoint, hfailure]
      rw [if_pos hrunning]
      exact rank_lt (by simp [load, weight, hpoint])
    · refine ⟨.settle position (.ok true), ⟨true, rfl⟩, rank_settle ?_ ?_ _⟩
      · simp [awaits, hpoint]
      · simp [hrunning]
  case skip =>
    apply hgo .done (by simp)
    rcases rank_resume h hlimit .done none with hsame | hlt
    · have hpoints := congrArg point hsame
      simp [resume.eq_def, hpoint] at hpoints
    · exact hlt
  case skipped =>
    apply hgo .done (by simp)
    rcases rank_resume h hlimit .done none with hsame | hlt
    · have htrace := congrArg (List.length ∘ trace) hsame
      simp [resume.eq_def, hpoint, skipFrom] at htrace
    · exact hlt
  case returned => exact absurd (.inl ⟨concluded, hpoint⟩) hend
  case rejected => exact absurd (.inr ⟨error, hpoint⟩) hend
  case uncommitted => exact hat.elim

/-- **Every run can be completed**, without anything throwing. -/
theorem completes (h : Ok s) (hlimit : 0 < s.maxParallelToolCalls) :
    ∃ actions : List (ToolCallsAction Context Error),
      (∀ action ∈ actions, action.Faultless) ∧ (s.run actions).Ended := by
  induction hrank : s.rank using WellFoundedLT.induction generalizing s with
  | ind rank ih =>
    by_cases hend : s.Ended
    · exact ⟨[], by simp, hend⟩
    · obtain ⟨action, hfaultless, hlt⟩ := advances h hlimit hend
      obtain ⟨actions, hall, hended⟩ := ih _ (hrank ▸ hlt) (h.step action)
        (by rwa [(sameCalls_step action).limit]) rfl
      exact ⟨action :: actions, List.forall_mem_cons.mpr ⟨hfaultless, hall⟩, hended⟩

/-- The scheduler after so many steps of an endless schedule. -/
def after (s : ToolCalls Context Error) (schedule : ℕ → ToolCallsAction Context Error) :
    ℕ → ToolCalls Context Error
  | 0 => s
  | n + 1 => (after s schedule n).step (schedule n)

theorem ok_after (h : Ok s) (schedule : ℕ → ToolCallsAction Context Error) (n : ℕ) :
    Ok (s.after schedule n) ∧ SameCalls s (s.after schedule n) := by
  induction n with
  | zero => exact ⟨h, rfl, rfl⟩
  | succ n ih =>
    obtain ⟨hok, hcalls, hlimit⟩ := ih
    have hsame := sameCalls_step (s := s.after schedule n) (schedule n)
    exact ⟨hok.step _, hsame.calls.trans hcalls, hsame.limit.trans hlimit⟩

theorem rank_after_le (h : Ok s) (hlimit : 0 < s.maxParallelToolCalls)
    (schedule : ℕ → ToolCallsAction Context Error) (n : ℕ) :
    (s.after schedule (n + 1)).rank ≤ (s.after schedule n).rank := by
  obtain ⟨hok, -, heq⟩ := ok_after h schedule n
  by_cases hadvances : (schedule n).Advances
  · rcases rank_step hok (heq ▸ hlimit) hadvances with hsame | hlt
    · exact (congrArg rank hsame).le
    · exact hlt.le
  · exact (rank_same hadvances).le

/-- **No schedule advances the scheduler for ever.** -/
theorem settles_down (h : Ok s) (hlimit : 0 < s.maxParallelToolCalls)
    (schedule : ℕ → ToolCallsAction Context Error) :
    ∃ n, ∀ m ≥ n, (schedule m).Advances → s.after schedule (m + 1) = s.after schedule m := by
  have hanti : Antitone fun n ↦ (s.after schedule n).rank :=
    antitone_nat_of_succ_le fun n ↦ rank_after_le h hlimit schedule n
  -- From a step of the least rank on, nothing can fall.
  obtain ⟨_, ⟨n, rfl⟩, hleast⟩ := wellFounded_lt.has_min
    (Set.range fun n ↦ (s.after schedule n).rank) ⟨_, 0, rfl⟩
  refine ⟨n, fun m hm hadvances ↦ ?_⟩
  obtain ⟨hok, -, heq⟩ := ok_after h schedule m
  rcases rank_step hok (heq ▸ hlimit) hadvances with hsame | hlt
  · exact hsame
  · exact absurd (hlt.trans_le (hanti hm)) (hleast _ ⟨m + 1, rfl⟩)

/-! ## Runs in which nothing throws -/

/-- Nothing has been thrown at this point. -/
def Smooth : ToolCallsPoint Context Error → Prop
  | .thrown _ | .drain | .rejected _ => False
  | _ => True

/-- The scheduler has not failed. -/
structure Unfailed (s : ToolCalls Context Error) : Prop where
  failures : s.failures = []
  failure : s.group.schedulerFailure = none
  point : Smooth s.point

theorem unfailed_skipFrom (h : Unfailed s) (index : ℕ) : Unfailed (s.skipFrom index) := by
  rw [skipFrom]
  split_ifs
  · exact ⟨h.failures, h.failure, trivial⟩
  · exact ⟨h.failures, h.failure, trivial⟩

theorem unfailed_drainPool (h : Unfailed s) : Unfailed s.drainPool := by
  rw [drainPool]
  split_ifs
  · rw [endGroup]
    split_ifs
    · apply unfailed_skipFrom
      exact ⟨h.failures, h.failure, h.point⟩
    · exact ⟨h.failures, h.failure, trivial⟩
    · refine ⟨h.failures, h.failure, ?_⟩
      simp only
      split_ifs
      · exact trivial
      · exact trivial
  · exact ⟨h.failures, h.failure, trivial⟩

theorem unfailed_fillPool (h : Unfailed s) : Unfailed (s.fillPool none) := by
  rw [fillPool]
  split_ifs
  · exact ⟨h.failures, h.failure, trivial⟩
  · exact ⟨h.failures, h.failure, trivial⟩
  · exact ⟨h.failures, h.failure, trivial⟩

theorem unfailed_commitReady (h : Unfailed s) : Unfailed s.commitReady := by
  rw [commitReady]
  split_ifs
  · rcases s.group.slots s.group.committed with _ | _ | _
    all_goals exact ⟨h.failures, h.failure, trivial⟩
  · exact ⟨h.failures, h.failure, trivial⟩

theorem unfailed_commitUnfailed (h : Unfailed s) : Unfailed s.commitUnfailed := by
  rw [commitUnfailed, h.failure]
  exact unfailed_commitReady h

theorem unfailed_resume (h : Unfailed s) {answer : ToolAnswer Context Error}
    (hanswer : ∀ error, answer ≠ .threw error) : Unfailed (s.resume answer none) := by
  obtain ⟨hfailures, hfailure, hsmooth⟩ := h
  unfold resume
  split
  case h_1 hpoint =>
    apply unfailed_fillPool
    exact ⟨hfailures, rfl, hsmooth⟩
  case h_6 =>
    rw [prepared, hfailure]
    rename_i preparation _
    rcases preparation with _ | _ | _
    all_goals exact ⟨hfailures, hfailure, trivial⟩
  case h_8 => exact unfailed_commitUnfailed ⟨hfailures, hfailure, hsmooth⟩
  case h_15 =>
    apply unfailed_commitReady
    exact ⟨hfailures, hfailure, hsmooth⟩
  case h_16 =>
    rw [commitDone, hfailure]
    apply unfailed_fillPool
    exact ⟨hfailures, hfailure, hsmooth⟩
  case h_17 => exact unfailed_drainPool ⟨hfailures, hfailure, hsmooth⟩
  case h_18 =>
    split_ifs
    · apply unfailed_commitUnfailed
      exact ⟨hfailures, hfailure, hsmooth⟩
    · exact ⟨hfailures, hfailure, hsmooth⟩
  case h_19 hpoint => exact (hpoint ▸ hsmooth).elim
  case h_20 hpoint => exact (hpoint ▸ hsmooth).elim
  case h_22 =>
    apply unfailed_skipFrom
    exact ⟨hfailures, hfailure, hsmooth⟩
  case h_23 => exact ⟨hfailures, hfailure, hsmooth⟩
  all_goals
    first
      | exact ⟨hfailures, hfailure, trivial⟩
      | exact absurd rfl (hanswer _)

theorem unfailed_step (h : Unfailed s) {action : ToolCallsAction Context Error}
    (hfaultless : action.Faultless) : Unfailed (s.step action) := by
  rcases action with _ | _ | ⟨position, outcome⟩ | ⟨answer, vetoed⟩
  · rw [step]
    split_ifs
    · exact h
    · exact ⟨h.failures, h.failure, h.point⟩
  · exact ⟨h.failures, h.failure, h.point⟩
  · obtain ⟨needsPost, rfl⟩ := hfaultless
    rw [step, settle]
    split_ifs
    · exact ⟨h.failures, h.failure, h.point⟩
    · exact h
  · obtain ⟨hanswer, rfl⟩ := hfaultless
    exact unfailed_resume h hanswer

theorem unfailed_run (h : Unfailed s) {actions : List (ToolCallsAction Context Error)}
    (hfaultless : ∀ action ∈ actions, action.Faultless) : Unfailed (s.run actions) :=
  List.foldlRecOn actions _ h fun _ hs action hmem ↦ unfailed_step hs (hfaultless action hmem)

end ToolCalls

end XxAgent
