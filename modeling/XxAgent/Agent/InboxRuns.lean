import XxAgent.Agent.InboxSplice

/-!
# Conservation of messages

Every message that was inserted is pending, claimed or discarded, and the log says what is pending.
While the event of a mutation is published the log is ahead of the lists by that mutation.
-/

namespace XxAgent

namespace InboxNotification

variable {Message : Type*}

def claims : InboxNotification Message → List Message
  | .claimed message _ => [message]
  | _ => []

def discards : InboxNotification Message → List Message
  | .discarded message => [message]
  | _ => []

end InboxNotification

namespace InboxTask

variable {Message : Type*}

/-- The mutation whose event is being published. -/
def publication? : InboxTask Message → Option (InboxSplice Message)
  | .publish splice _ => some splice
  | _ => none

/-- The claimed messages it is still to announce. -/
def claims : InboxTask Message → List Message
  | .notify notification => notification.claims
  | .publish _ (.claimTurn _ claimed) => claimed
  | _ => []

/-- The discarded messages it is still to announce. -/
def discards : InboxTask Message → List Message
  | .notify notification => notification.discards
  | _ => []

/-- A call of `splice` is going to return what `Array.prototype.splice` would have, and a claim
takes the input of the step first. -/
def Sound (state : InboxState Message) : InboxTask Message → Prop
  | .publish splice (.announce standard) => (state.spliced splice).1 = standard
  | .publish splice (.claimStep _ _) => splice.target = .nextStep
  | .returns messages standard => ∀ removed ∈ standard, messages = removed
  | _ => True

theorem publication?_eq_none {task : InboxTask Message} (h : task.publishes = false) :
    task.publication? = none := by
  rcases task with _ | _ | _ | _ | _
  · simp [publishes] at h
  all_goals rfl

/-- Only a mutation that is published looks at the lists. -/
theorem Sound.congr {task : InboxTask Message} {state state' : InboxState Message}
    (h : task.publishes = false) (hs : task.Sound state) : task.Sound state' := by
  rcases task with _ | _ | _ | _ | _
  · simp [publishes] at h
  all_goals exact hs

end InboxTask

/-- A mutation was not rejected for its coordinates. -/
def InboxFault.Ordinary {Id : Type*} : InboxFault Id → Prop
  | .invalidSplice => False
  | .notJson => False
  | _ => True

/-- A call of `splice` has returned what `Array.prototype.splice` would have, unless it was rejected,
and not for its coordinates. -/
def InboxOutcome.Sound {Id Message : Type*} : InboxOutcome Id Message → Prop
  | .returned messages standard => ∀ removed ∈ standard, messages = removed
  | .threw fault => fault.Ordinary

/-- The action does not ask for a start that is truncated to a negative zero, and does not veto the
second half of a claim whose first half has claimed something. -/
def InboxAction.Meets {Id Message : Type*} (s : Inbox Id Message) : InboxAction Id Message → Prop
  | .call (.splice target start deleteCount inserted) _ => start.trunc = .negativeZero →
      (Ecma.splice (s.state.get target) start deleteCount inserted).1 = [] ∧ inserted = []
  | .next true => ∀ splice turn rest, s.todo = .publish splice (.claimStep .nextTurn turn) :: rest →
      s.state.nextTurn = []
  | _ => True

namespace Inbox

open Ecma

variable {Id Message : Type*} [DecidableEq Id] (id : Message → Id)

omit [DecidableEq Id] in
/-- The lists, once the mutation that is being published has been applied. -/
def settled (s : Inbox Id Message) : InboxState Message :=
  match s.todo.findSome? (·.publication?) with
  | some splice => (s.state.spliced splice).2
  | none => s.state

/-- What holds of an inbox between two steps, where nothing is `due` or `dropped`. Within a step
those messages have been claimed or discarded, and are going to be announced. -/
structure Ok (seedLength : ℕ) (s : Inbox Id Message) (due dropped : List Message) : Prop where
  seeded : seedLength ≤ s.log.length
  replayed : replay id {} (s.log.drop seedLength) = .ok s.settled
  unique : (s.state.pending.map id).Nodup
  settledUnique : (s.settled.pending.map id).Nodup
  single : (s.todo.filter (·.publishes)).length ≤ 1
  sound : ∀ task ∈ s.todo, task.Sound s.state
  conserved : s.inserted.Perm (s.state.pending ++ s.claimed ++ s.discarded)
  claims : (s.announced.flatMap (·.claims) ++ due ++ s.todo.flatMap (·.claims)).Perm s.claimed
  discards : (s.announced.flatMap (·.discards) ++ dropped ++ s.todo.flatMap (·.discards)).Perm
    s.discarded
  returned : ∀ outcome ∈ s.outcomes, outcome.Sound

omit [DecidableEq Id] in
theorem settled_of_not_appending {s : Inbox Id Message} (h : s.appending = false) :
    s.settled = s.state := by
  have hnone : s.todo.findSome? (·.publication?) = none := by
    rw [List.findSome?_eq_none_iff]
    intro task htask
    exact InboxTask.publication?_eq_none (by simpa using List.any_eq_false.mp h task htask)
  rw [settled, hnone]

theorem replay_append {s s' : InboxState Message} {events : List (InboxEvent Message)}
    (h : replay id s events = .ok s') (rest : List (InboxEvent Message)) :
    replay id s (events ++ rest) = replay id s' rest := by
  induction events generalizing s with
  | nil =>
    rw [Except.ok.inj h]
    rfl
  | cons event events ih =>
    rcases event with splice | _
    · rw [List.cons_append, replay]
      rw [replay] at h
      rcases happ : apply id s splice with fault | s₁
      · rw [happ] at h
        exact absurd h (by simp)
      · rw [happ] at h
        exact ih h
    · exact ih h

variable {id} {seedLength : ℕ} {s : Inbox Id Message} {due dropped : List Message}

omit [DecidableEq Id] in
theorem settled_append {front : List (InboxTask Message)}
    (h : ∀ task ∈ front, task.publishes = false) :
    ({ s with todo := front ++ s.todo } : Inbox Id Message).settled = s.settled := by
  have hfront : front.findSome? (·.publication?) = none :=
    List.findSome?_eq_none_iff.mpr fun task htask ↦ InboxTask.publication?_eq_none (h task htask)
  simp only [settled, List.findSome?_append, hfront, Option.none_or]

/-- What is going to be announced is put before the other tasks. -/
theorem Ok.announce (h : Ok id seedLength s due dropped) {front : List (InboxTask Message)}
    (hpublishes : ∀ task ∈ front, task.publishes = false)
    (hsound : ∀ task ∈ front, task.Sound s.state) {due' dropped' : List Message}
    (hdue : due' ++ front.flatMap (·.claims) = due)
    (hdropped : dropped' ++ front.flatMap (·.discards) = dropped) :
    Ok id seedLength { s with todo := front ++ s.todo } due' dropped' where
  seeded := h.seeded
  replayed := by rw [settled_append hpublishes, h.replayed]
  unique := h.unique
  settledUnique := by
    rw [settled_append hpublishes]
    exact h.settledUnique
  single := by
    rw [List.filter_append, List.filter_eq_nil_iff.mpr (by simpa using hpublishes)]
    exact h.single
  sound := by
    intro task htask
    rcases List.mem_append.mp htask with htask | htask
    · exact hsound task htask
    · exact h.sound task htask
  conserved := h.conserved
  claims := by
    have hclaims := h.claims
    rw [← hdue] at hclaims
    simpa using hclaims
  discards := by
    have hdiscards := h.discards
    rw [← hdropped] at hdiscards
    simpa using hdiscards
  returned := h.returned

theorem Ok.threw (h : Ok id seedLength s due dropped) {fault : InboxFault Id}
    (hfault : fault.Ordinary) : Ok id seedLength (s.threw fault) due dropped := by
  refine { h with returned := fun outcome houtcome ↦ ?_ }
  rcases List.mem_append.mp houtcome with houtcome | houtcome
  · exact h.returned outcome houtcome
  · rw [List.mem_singleton.mp houtcome]
    exact hfault

omit [DecidableEq Id] in
theorem filter_publishes_eq_nil {todo : List (InboxTask Message)}
    (h : todo.any (·.publishes) = false) : todo.filter (·.publishes) = [] := by
  rw [List.filter_eq_nil_iff]
  exact List.any_eq_false.mp h

/-- The event of a valid mutation is published. -/
theorem Ok.publish (h : Ok id seedLength s due dropped) (happending : s.appending = false)
    {splice : InboxSplice Message} (hvalid : validate id s.state splice = .ok ())
    (hunique : ((s.state.spliced splice).2.pending.map id).Nodup)
    {after : AfterSplice Message} (hsound : (InboxTask.publish splice after).Sound s.state)
    {due' : List Message} (hdue : due' ++ (InboxTask.publish splice after).claims = due) :
    Ok id seedLength (s.publish splice after s.todo) due' dropped where
  seeded := by
    rw [Inbox.publish, List.length_append]
    exact Nat.le_add_right_of_le h.seeded
  replayed := by
    rw [Inbox.publish, List.drop_append_of_le_length h.seeded, replay_append id h.replayed,
      settled_of_not_appending happending, replay, apply, hvalid]
    rfl
  unique := h.unique
  settledUnique := hunique
  single := by
    rw [Inbox.publish, List.filter_cons_of_pos rfl, filter_publishes_eq_nil happending]
    rfl
  sound := by
    rintro task (_ | ⟨_, htask⟩)
    · exact hsound
    · exact h.sound task htask
  conserved := h.conserved
  claims := by
    have hclaims := h.claims
    rw [← hdue] at hclaims
    simpa [Inbox.publish] using hclaims
  discards := h.discards
  returned := h.returned

/-- What is claimed is announced, before the claim returns. -/
theorem Ok.announceClaim (h : Ok id seedLength s due []) (turn : ℕ) :
    Ok id seedLength (s.announceClaim turn due) [] [] := by
  let front := due.map (fun m ↦ InboxTask.notify (.claimed m turn)) ++
    [InboxTask.returns due none]
  have hfront : Ok id seedLength { s with todo := front ++ s.todo } [] [] := by
    apply h.announce
    · intro task htask
      rcases List.mem_append.mp htask with htask | htask
      · obtain ⟨m, -, rfl⟩ := List.mem_map.mp htask
        rfl
      · rw [List.mem_singleton.mp htask]
        rfl
    · intro task htask
      rcases List.mem_append.mp htask with htask | htask
      · obtain ⟨m, -, rfl⟩ := List.mem_map.mp htask
        trivial
      · rw [List.mem_singleton.mp htask]
        exact fun _ hnone ↦ absurd hnone (by simp)
    · simp [front, List.flatMap_map, InboxTask.claims, InboxNotification.claims]
    · simp [front, List.flatMap_map, InboxTask.discards, InboxNotification.discards]
  simpa [front, Inbox.announceClaim] using hfront

/-- No other event is being published. -/
theorem Ok.rest_idle {splice : InboxSplice Message} {after : AfterSplice Message}
    {rest : List (InboxTask Message)} (h : Ok id seedLength s due dropped)
    (htodo : s.todo = .publish splice after :: rest) :
    ∀ task ∈ rest, task.publishes = false := by
  have hsingle := h.single
  rw [htodo, List.filter_cons_of_pos rfl, List.length_cons] at hsingle
  have hnone : rest.filter (·.publishes) = [] := List.length_eq_zero_iff.mp (by omega)
  intro task htask
  simpa using List.filter_eq_nil_iff.mp hnone task htask

/-- The event of a mutation has been published, and the mutation is applied. What it removes is
claimed or discarded. -/
theorem Ok.applied {splice : InboxSplice Message} {after : AfterSplice Message}
    {rest : List (InboxTask Message)} (h : Ok id seedLength s [] [])
    (htodo : s.todo = .publish splice after :: rest) {claimed discarded : List Message}
    (hremoved : claimed ++ discarded = (s.state.spliced splice).1) :
    Ok id seedLength { s with
      todo := rest
      state := (s.state.spliced splice).2
      inserted := s.inserted ++ splice.inserted
      claimed := s.claimed ++ claimed
      discarded := s.discarded ++ discarded } ((InboxTask.publish splice after).claims ++ claimed)
      discarded := by
  have hidle := h.rest_idle htodo
  have hrest : rest.filter (·.publishes) = [] := List.filter_eq_nil_iff.mpr (by simpa using hidle)
  have hsettled : s.settled = (s.state.spliced splice).2 := by
    rw [settled, htodo]
    rfl
  have hsettled' : ({ s with
      todo := rest
      state := (s.state.spliced splice).2
      inserted := s.inserted ++ splice.inserted
      claimed := s.claimed ++ claimed
      discarded := s.discarded ++ discarded } : Inbox Id Message).settled
        = (s.state.spliced splice).2 :=
    settled_of_not_appending (List.any_eq_false.mpr (by simpa using hidle))
  have hunique := h.settledUnique
  rw [hsettled] at hunique
  refine ⟨h.seeded, ?_, hunique, by rwa [hsettled'], by simp [hrest], ?_, ?_, ?_, ?_, h.returned⟩
  · rw [hsettled', h.replayed, hsettled]
  · intro task htask
    exact (h.sound task (htodo ▸ List.mem_cons_of_mem _ htask)).congr (hidle task htask)
  · have hsplice := perm_spliced s.state splice
    have hconserved := h.conserved
    rw [← hremoved] at hsplice
    rw [← Multiset.coe_eq_coe] at hsplice hconserved ⊢
    simp only [← Multiset.coe_add] at hsplice hconserved ⊢
    rw [hconserved, add_right_comm, add_right_comm (s.state.pending : Multiset Message), hsplice]
    abel
  · have hclaims := h.claims
    rw [htodo, ← Multiset.coe_eq_coe] at hclaims
    rw [← Multiset.coe_eq_coe]
    simp only [List.flatMap_cons, ← Multiset.coe_add, Multiset.coe_nil] at hclaims ⊢
    rw [← hclaims]
    abel
  · have hdiscards := h.discards
    rw [htodo, ← Multiset.coe_eq_coe] at hdiscards
    rw [← Multiset.coe_eq_coe]
    have hnone : (InboxTask.publish splice after).discards = [] := rfl
    simp only [List.flatMap_cons, ← Multiset.coe_add, hnone, Multiset.coe_nil] at hdiscards ⊢
    rw [← hdiscards]
    abel

/-! ## The operations -/

/-- A mutation that the log is asked to take was normalised and is valid. -/
theorem mutate_eq_some {target : InboxTarget} {start deleteCount : Numeric}
    {inserted : List Message} {discardRemoved vetoed : Bool} {splice : InboxSplice Message}
    (h : s.mutate id target start deleteCount inserted discardRemoved vetoed = .ok (some splice)) :
    normalized s.state target start deleteCount inserted discardRemoved = some splice ∧
      validate id s.state splice = .ok () ∧ s.appending = false := by
  delta Inbox.mutate at h
  rcases hnormalized : normalized s.state target start deleteCount inserted discardRemoved
    with _ | splice'
  · simp [hnormalized] at h
  rcases hvalid : validate id s.state splice' with fault | _
  · simp [hnormalized, hvalid] at h
  rcases happend : (s.appendSplice splice' vetoed : Except (InboxFault Id) Unit) with fault | _
  · simp [hnormalized, hvalid, happend] at h
  simp only [hnormalized, hvalid, happend, Except.ok.injEq, Option.some.injEq] at h
  refine ⟨by rw [h], by rw [← h, hvalid], ?_⟩
  by_contra happending
  rw [appendSplice] at happend
  split_ifs at happend
  simp_all

/-- A mutation that does nothing. -/
theorem mutate_eq_none {target : InboxTarget} {start deleteCount : Numeric}
    {inserted : List Message} {discardRemoved vetoed : Bool}
    (h : s.mutate id target start deleteCount inserted discardRemoved vetoed = .ok none) :
    normalized s.state target start deleteCount inserted discardRemoved = none := by
  delta Inbox.mutate at h
  rcases hnormalized : normalized s.state target start deleteCount inserted discardRemoved
    with _ | splice'
  · rfl
  rcases hvalid : validate id s.state splice' with fault | _
  · simp [hnormalized, hvalid] at h
  rcases happend : (s.appendSplice splice' vetoed : Except (InboxFault Id) Unit) with fault | _
  · simp [hnormalized, hvalid, happend] at h
  · simp [hnormalized, hvalid, happend] at h

/-- A mutation is not rejected for its coordinates, unless JSON does not have its start. -/
theorem mutate_eq_error {target : InboxTarget} {start deleteCount : Numeric}
    {inserted : List Message} {discardRemoved vetoed : Bool} {fault : InboxFault Id}
    (h : s.mutate id target start deleteCount inserted discardRemoved vetoed = .error fault)
    (hstart : start.trunc = .negativeZero →
      (Ecma.splice (s.state.get target) start deleteCount inserted).1 = [] ∧ inserted = []) :
    fault.Ordinary := by
  delta Inbox.mutate at h
  rcases hnormalized : normalized s.state target start deleteCount inserted discardRemoved
    with _ | splice
  · simp [hnormalized] at h
  rcases validate_cases id hnormalized with ⟨hvalid, -⟩ | ⟨⟨messageId, hvalid⟩, -⟩
  · obtain ⟨-, hsplice, -, hcount⟩ := normalized_eq_some hnormalized
    have hjson : splice.start.isJson = true := by
      rw [hsplice, isJson_actualStart]
      intro hzero
      have hnone : normalized s.state target start deleteCount inserted discardRemoved = none :=
        normalized_eq_none.mpr (hstart hzero)
      exact absurd (hnormalized.symm.trans hnone) (by simp)
    have hcountJson : (splice.removedCount.getD 0).isJson = true := by
      rw [hcount]
      rfl
    rw [hnormalized] at h
    simp only [hvalid, appendSplice, hjson, hcountJson] at h
    rcases happending : s.appending with _ | _
    · rcases vetoed with _ | _
      · simp [happending] at h
      · simp only [happending] at h
        rw [← Except.error.inj h]
        trivial
    · simp only [happending] at h
      rw [← Except.error.inj h]
      trivial
  · rw [hnormalized] at h
    simp only [hvalid] at h
    rw [← Except.error.inj h]
    trivial

omit [DecidableEq Id] in
theorem trunc_natCast_ne (n : ℕ) : (Numeric.finite n).trunc ≠ .negativeZero := by
  have hpos : ¬ (n : ℚ) < 0 := not_lt.mpr (Nat.cast_nonneg n)
  simp [Numeric.trunc, hpos]

/-- The event of a normalised mutation is published. -/
private theorem Ok.publish_of_mutate (h : Ok id seedLength s due dropped) {target : InboxTarget}
    {start deleteCount : Numeric} {inserted : List Message} {discardRemoved vetoed : Bool}
    {splice : InboxSplice Message}
    (hmutate : s.mutate id target start deleteCount inserted discardRemoved vetoed
      = .ok (some splice))
    {after : AfterSplice Message}
    (hstandard : ∀ standard, after = .announce standard →
      standard = (Ecma.splice (s.state.get target) start deleteCount inserted).1)
    (hstep : ∀ next turn, after = .claimStep next turn → target = .nextStep)
    {due' : List Message} (hdue : due' ++ (InboxTask.publish splice after).claims = due) :
    Ok id seedLength (s.publish splice after s.todo) due' dropped := by
  obtain ⟨hnormalized, hvalid, happending⟩ := mutate_eq_some hmutate
  apply h.publish happending hvalid ((validate_normalized id hnormalized).mp hvalid) _ hdue
  rcases after with standard | _ | _
  · rw [InboxTask.Sound, hstandard standard rfl, spliced_normalized hnormalized]
  · exact (normalized_eq_some hnormalized).1.trans (hstep _ _ rfl)
  · trivial

theorem Ok.splice (h : Ok id seedLength s due dropped) {target : InboxTarget}
    {start deleteCount : Numeric} {inserted : List Message} (vetoed : Bool)
    (hstart : start.trunc = .negativeZero →
      (Ecma.splice (s.state.get target) start deleteCount inserted).1 = [] ∧ inserted = []) :
    Ok id seedLength (s.splice id target start deleteCount inserted vetoed) due dropped := by
  delta Inbox.splice
  rcases hmutate : s.mutate id target start deleteCount inserted true vetoed
    with fault | _ | splice
  · exact h.threw (mutate_eq_error hmutate hstart)
  · have hnone := splice_of_none (mutate_eq_none hmutate)
    have hreturns : Ok id seedLength { s with todo := [.returns [] (some [])] ++ s.todo }
        due dropped := by
      apply h.announce
      · simp [InboxTask.publishes]
      · simp [InboxTask.Sound]
      · simp [InboxTask.claims]
      · simp [InboxTask.discards]
    simpa [hnone] using hreturns
  · apply h.publish_of_mutate hmutate
    · rintro standard ⟨⟩
      rfl
    · intro next turn hafter
      exact absurd hafter (by simp)
    · exact List.append_nil due

/-- A splice at an index. -/
theorem Ok.spliceAt (h : Ok id seedLength s due dropped) (target : InboxTarget) (index : ℕ)
    (deleteCount : Numeric) (inserted : List Message) (vetoed : Bool) :
    Ok id seedLength (s.splice id target (.finite index) deleteCount inserted vetoed)
      due dropped :=
  h.splice vetoed fun hzero ↦ absurd hzero (trunc_natCast_ne index)

theorem Ok.clearTurn (h : Ok id seedLength s due dropped) (vetoed : Bool) :
    Ok id seedLength (s.clearTurn id vetoed) due dropped :=
  h.splice vetoed fun hzero ↦ absurd hzero (trunc_natCast_ne 0)

omit [DecidableEq Id] in
theorem splice_all (messages : List Message) :
    (Ecma.splice messages 0 (.finite messages.length) []).1 = messages := by
  have hstart : relativeStart messages.length 0 = 0 := by
    simp [relativeStart, Numeric.truncate]
  have hcount : clampedCount messages.length (.finite messages.length) = messages.length := by
    simp [clampedCount, Numeric.truncate]
  rw [Ecma.splice, hstart, Nat.sub_zero, hcount, spliceAt]
  simp

theorem Ok.clear (h : Ok id seedLength s due dropped) (vetoed : Bool) :
    Ok id seedLength (s.clear id vetoed) due dropped := by
  delta Inbox.clear
  rcases hmutate : s.mutate id .nextStep 0 (.finite s.state.nextStep.length) [] true vetoed
    with fault | _ | splice
  · exact h.threw (mutate_eq_error hmutate fun hzero ↦ absurd hzero (trunc_natCast_ne 0))
  · exact h.clearTurn vetoed
  · obtain ⟨hnormalized, hvalid, happending⟩ := mutate_eq_some hmutate
    have hlater : Ok id seedLength { s with todo := [.clearTurn] ++ s.todo } due dropped := by
      apply h.announce
      · simp [InboxTask.publishes]
      · simp [InboxTask.Sound]
      · simp [InboxTask.claims]
      · simp [InboxTask.discards]
    apply hlater.publish
    · exact happending
    · exact hvalid
    · exact (validate_normalized id hnormalized).mp hvalid
    · rw [InboxTask.Sound, spliced_normalized hnormalized]
      exact splice_all _
    · exact List.append_nil due

omit [DecidableEq Id] in
/-- Deleting leaves identities unique. -/
theorem nodup_spliced_delete {splice : InboxSplice Message} {state : InboxState Message}
    (h : (state.pending.map id).Nodup) (hinserted : splice.inserted = []) :
    ((state.spliced splice).2.pending.map id).Nodup := by
  have hsplice := (perm_spliced state splice).map id
  rw [hinserted, List.append_nil, List.map_append] at hsplice
  exact (List.nodup_append.mp (hsplice.nodup h)).2.1

/-- A deletion from the start of a list is rejected only when it is vetoed. -/
theorem mutate_delete (hunique : (s.state.pending.map id).Nodup) (happending : s.appending = false)
    {target : InboxTarget} {deleteCount : Numeric} {discardRemoved vetoed : Bool}
    (hveto : vetoed = true → s.state.get target = []) :
    ∃ splice?, s.mutate id target 0 deleteCount [] discardRemoved vetoed = .ok splice? := by
  delta Inbox.mutate
  rcases hnormalized : normalized s.state target 0 deleteCount [] discardRemoved with _ | splice
  · exact ⟨none, rfl⟩
  obtain ⟨htarget, hstart, hinserted, hcount⟩ := normalized_eq_some hnormalized
  have hvalid := (validate_normalized id hnormalized).mpr (nodup_spliced_delete hunique hinserted)
  have hvetoed : vetoed = false := by
    by_contra hvetoed
    have hempty := hveto (by simpa using hvetoed)
    have hnone : normalized s.state target 0 deleteCount [] discardRemoved = none :=
      normalized_eq_none.mpr ⟨by simp [hempty, Ecma.splice, spliceAt], rfl⟩
    exact absurd (hnormalized.symm.trans hnone) (by simp)
  have hjson : splice.start.isJson = true := by
    rw [hstart, isJson_actualStart]
    simp [Numeric.trunc]
  have hcountJson : (splice.removedCount.getD 0).isJson = true := by
    rw [hcount]
    rfl
  have happend : s.appendSplice splice vetoed = .ok () := by
    rw [appendSplice, hjson, hcountJson, happending, hvetoed]
    rfl
  exact ⟨some splice, by simp only [hvalid, happend]⟩

/-- The second half of a claim, unless it is rejected after messages have been claimed. -/
theorem Ok.claimTurn (h : Ok id seedLength s due []) (target : InboxTarget) (turn : ℕ)
    {vetoed : Bool} (haccepted : due = [] ∨
      s.appending = false ∧ (vetoed = true → target = .nextTurn → s.state.nextTurn = [])) :
    Ok id seedLength (s.claimTurn id target turn due vetoed) [] [] := by
  rcases target with _ | _
  · delta Inbox.claimTurn
    dsimp only
    rcases hmutate : s.mutate id .nextTurn 0 1 [] false vetoed with fault | _ | splice
    · rcases haccepted with rfl | ⟨happending, hveto⟩
      · exact h.threw (mutate_eq_error hmutate fun hzero ↦ absurd hzero (trunc_natCast_ne 0))
      · have hempty : vetoed = true → s.state.get .nextTurn = [] := fun hv ↦ hveto hv rfl
        obtain ⟨splice?, hok⟩ := mutate_delete h.unique happending hempty
        exact absurd (hmutate.symm.trans hok) (by simp)
    · exact h.announceClaim turn
    · apply h.publish_of_mutate hmutate
      · intro standard hafter
        exact absurd hafter (by simp)
      · intro next turn' hafter
        exact absurd hafter (by simp)
      · rfl
  · exact h.announceClaim turn

theorem Ok.claim (h : Ok id seedLength s [] []) (target : InboxTarget) (turn : ℕ)
    (vetoed : Bool) : Ok id seedLength (s.claim id target turn vetoed) [] [] := by
  delta Inbox.claim
  rcases hmutate : s.mutate id .nextStep 0 (.finite s.state.nextStep.length) [] false vetoed
    with fault | _ | splice
  · exact h.threw (mutate_eq_error hmutate fun hzero ↦ absurd hzero (trunc_natCast_ne 0))
  · exact h.claimTurn target turn (.inl rfl)
  · apply h.publish_of_mutate hmutate
    · intro standard hafter
      exact absurd hafter (by simp)
    · intro next turn' hafter
      rfl
    · rfl

/-- The event of something else is published. -/
theorem Ok.otherAppend (h : Ok id seedLength s due dropped) (happending : s.appending = false) :
    Ok id seedLength { s with log := s.log ++ [.other], todo := .otherPublish :: s.todo }
      due dropped where
  seeded := by
    rw [List.length_append]
    exact Nat.le_add_right_of_le h.seeded
  replayed := by
    rw [List.drop_append_of_le_length h.seeded, replay_append id h.replayed]
    rfl
  unique := h.unique
  settledUnique := h.settledUnique
  single := by
    rw [List.filter_cons_of_pos rfl, filter_publishes_eq_nil happending]
    rfl
  sound := by
    rintro task (_ | ⟨_, htask⟩)
    · trivial
    · exact h.sound task htask
  conserved := h.conserved
  claims := h.claims
  discards := h.discards
  returned := h.returned

theorem Ok.call (h : Ok id seedLength s [] []) {vetoed : Bool} {call : InboxCall Id Message}
    (hmeets : (InboxAction.call call vetoed).Meets s) :
    Ok id seedLength (s.call id vetoed call) [] [] := by
  cases call with
  | splice target start deleteCount inserted => exact h.splice vetoed hmeets
  | append target message => exact h.spliceAt target _ _ _ vetoed
  | prepend target message => exact h.splice vetoed fun hzero ↦ absurd hzero (trunc_natCast_ne 0)
  | replace messageId newMessage =>
    rw [Inbox.call]
    rcases locate id s.state messageId with _ | ⟨target, index⟩
    · exact h
    · exact h.spliceAt target _ _ _ vetoed
  | remove messageId =>
    rw [Inbox.call]
    rcases locate id s.state messageId with _ | ⟨target, index⟩
    · exact h
    · exact h.spliceAt target _ _ _ vetoed
  | claim target turn => exact h.claim target turn vetoed
  | clear => exact h.clear vetoed
  | otherAppend =>
    rw [Inbox.call]
    split_ifs with hrefused
    · exact h
    · exact h.otherAppend (by simp_all)

/-- The next task is taken up; what it announces is due. -/
theorem Ok.pop (h : Ok id seedLength s [] []) {task : InboxTask Message}
    {rest : List (InboxTask Message)} (htodo : s.todo = task :: rest)
    (hpublication : task.publication? = none) :
    Ok id seedLength { s with todo := rest } task.claims task.discards where
  seeded := h.seeded
  replayed := by
    rw [h.replayed, settled, settled, htodo, List.findSome?_cons, hpublication]
  unique := h.unique
  settledUnique := by
    have hsettled := h.settledUnique
    rwa [settled, htodo, List.findSome?_cons, hpublication] at hsettled
  single := by
    have hsingle := h.single
    rw [htodo] at hsingle
    exact ((List.sublist_cons_self task rest).filter _).length_le.trans hsingle
  sound := fun task' htask' ↦ h.sound task' (htodo ▸ List.mem_cons_of_mem _ htask')
  conserved := h.conserved
  claims := by
    have hclaims := h.claims
    rw [htodo] at hclaims
    simpa using hclaims
  discards := by
    have hdiscards := h.discards
    rw [htodo] at hdiscards
    simpa using hdiscards
  returned := h.returned

theorem Ok.notify {notification : InboxNotification Message}
    (h : Ok id seedLength s notification.claims notification.discards) :
    Ok id seedLength { s with announced := s.announced ++ [notification] } [] [] where
  seeded := h.seeded
  replayed := h.replayed
  unique := h.unique
  settledUnique := h.settledUnique
  single := h.single
  sound := h.sound
  conserved := h.conserved
  claims := by simpa using h.claims
  discards := by simpa using h.discards
  returned := h.returned

theorem Ok.returns (h : Ok id seedLength s due dropped) {messages : List Message}
    {standard : Option (List Message)}
    (hsound : (InboxTask.returns messages standard).Sound s.state) :
    Ok id seedLength { s with outcomes := s.outcomes ++ [.returned messages standard] }
      due dropped := by
  refine { h with returned := fun outcome houtcome ↦ ?_ }
  rcases List.mem_append.mp houtcome with houtcome | houtcome
  · exact h.returned outcome houtcome
  · rw [List.mem_singleton.mp houtcome]
    exact hsound

/-- The other list, where the second half of a claim is vetoed. -/
theorem Ok.nextTurn_of_meets (h : Ok id seedLength s [] []) {splice : InboxSplice Message}
    {turn : ℕ} {rest : List (InboxTask Message)}
    (htodo : s.todo = .publish splice (.claimStep .nextTurn turn) :: rest)
    (hmeets : (InboxAction.next true : InboxAction Id Message).Meets s) :
    (s.state.spliced splice).2.nextTurn = [] := by
  have hsound : (InboxTask.publish splice (.claimStep .nextTurn turn)).Sound s.state :=
    h.sound _ (htodo ▸ List.mem_cons_self)
  have htarget : splice.target = .nextStep := hsound
  rw [InboxState.spliced, htarget]
  exact hmeets splice turn rest htodo

/-- The event of a mutation has been published. -/
theorem Ok.published {splice : InboxSplice Message} {after : AfterSplice Message}
    {rest : List (InboxTask Message)} (h : Ok id seedLength s [] [])
    (htodo : s.todo = .publish splice after :: rest) {vetoed : Bool}
    (hmeets : (InboxAction.next vetoed : InboxAction Id Message).Meets s) :
    Ok id seedLength ({ s with todo := rest }.published id splice after vetoed) [] [] := by
  have hsound := h.sound _ (htodo ▸ List.mem_cons_self)
  rcases after with standard | ⟨target, turn⟩ | ⟨turn, claimed⟩
  · have happlied := h.applied htodo (List.nil_append _)
    let front := (s.state.spliced splice).1.map (fun m ↦ InboxTask.notify (.discarded m)) ++
      (splice.inserted.map (fun m ↦ InboxTask.notify (.inserted m)) ++
        [InboxTask.returns (s.state.spliced splice).1 (some standard)])
    have hannounced : Ok id seedLength { s with
        todo := front ++ rest
        state := (s.state.spliced splice).2
        inserted := s.inserted ++ splice.inserted
        claimed := s.claimed ++ []
        discarded := s.discarded ++ (s.state.spliced splice).1 } [] [] := by
      apply happlied.announce
      · simp only [front, List.mem_append, List.mem_map, List.mem_singleton]
        rintro task (⟨m, -, rfl⟩ | ⟨m, -, rfl⟩ | rfl)
        all_goals rfl
      · simp only [front, List.mem_append, List.mem_map, List.mem_singleton]
        rintro task (⟨m, -, rfl⟩ | ⟨m, -, rfl⟩ | rfl)
        · trivial
        · trivial
        · intro removed hremoved
          exact hsound.trans (Option.some.inj hremoved)
      · simp [front, List.flatMap_map, InboxTask.claims, InboxNotification.claims]
      · simp [front, List.flatMap_map, InboxTask.discards, InboxNotification.discards]
    simpa [Inbox.published, front] using hannounced
  · have happlied := h.applied htodo (List.append_nil _)
    simp only [List.append_nil] at happlied
    apply happlied.claimTurn target turn
    refine .inr ⟨List.any_eq_false.mpr (by simpa using h.rest_idle htodo), ?_⟩
    rintro rfl rfl
    exact h.nextTurn_of_meets htodo hmeets
  · have happlied := h.applied htodo (List.append_nil _)
    simp only [List.append_nil] at happlied
    exact happlied.announceClaim turn

/-!
## Runs of an inbox

`splice` rejects a start that is truncated to a negative zero, which `Array.prototype.splice` takes
for zero; and a claim whose second half is vetoed has already taken the input of the step out of its
list, and announces none of it. In a run without either, what is inserted is conserved and the log
replays to the lists.
-/

variable (id)

/-- Every action of a run meets the condition where it happens. -/
def MeetsAll (s : Inbox Id Message) : List (InboxAction Id Message) → Prop
  | [] => True
  | action :: actions => action.Meets s ∧ MeetsAll (s.step id action) actions

variable {id}

theorem Ok.step (h : Ok id seedLength s [] []) {action : InboxAction Id Message}
    (hmeets : action.Meets s) : Ok id seedLength (s.step id action) [] [] := by
  rcases action with ⟨call, vetoed⟩ | vetoed
  · exact h.call hmeets
  rw [Inbox.step]
  rcases htodo : s.todo with _ | ⟨task, rest⟩
  · exact h
  rcases task with ⟨splice, after⟩ | _ | notification | _ | ⟨messages, standard⟩
  · exact h.published htodo hmeets
  · exact h.pop htodo rfl
  · exact (h.pop htodo rfl).notify
  · exact (h.pop htodo rfl).clearTurn vetoed
  · exact (h.pop htodo rfl).returns (h.sound _ (htodo ▸ List.mem_cons_self))

/-- **The invariant holds after every run.** -/
theorem Ok.run (h : Ok id seedLength s [] []) {actions : List (InboxAction Id Message)}
    (hmeets : MeetsAll id s actions) : Ok id seedLength (s.run id actions) [] [] := by
  induction actions generalizing s with
  | nil => exact h
  | cons action actions ih => exact ih (h.step hmeets.1) hmeets.2

theorem apply_unique {state state' : InboxState Message} {splice : InboxSplice Message}
    (h : apply id state splice = .ok state') : (state'.pending.map id).Nodup := by
  rw [apply] at h
  rcases hvalid : validate id state splice with fault | _
  · simp [hvalid] at h
  rw [hvalid] at h
  rw [← Except.ok.inj h]
  rw [validate] at hvalid
  split_ifs at hvalid
  rcases hrepeated : firstRepeated [] ((state.spliced splice).2.pending.map id) with _ | messageId
  · exact (firstRepeated_eq_none.mp hrepeated).1
  · simp [hrepeated] at hvalid

theorem replay_unique {state state' : InboxState Message} {events : List (InboxEvent Message)}
    (hstart : (state.pending.map id).Nodup) (h : replay id state events = .ok state') :
    (state'.pending.map id).Nodup := by
  induction events generalizing state with
  | nil => rwa [← Except.ok.inj h]
  | cons event events ih =>
    rcases event with splice | _
    · rw [replay] at h
      rcases happ : apply id state splice with fault | state₁
      · simp [happ] at h
      · rw [happ] at h
        exact ih (apply_unique happ) h
    · exact ih hstart h

theorem Ok.new {log : List (InboxEvent Message)} {seedLength : Option ℕ} {s : Inbox Id Message}
    (hnew : Inbox.new id log seedLength = .ok s) (hseed : seedLength.getD 0 ≤ log.length) :
    Ok id (seedLength.getD 0) s [] [] := by
  rw [Inbox.new] at hnew
  rcases hreplay : replay id {} (log.drop (seedLength.getD 0)) with fault | state
  · simp [hreplay] at hnew
  rw [hreplay] at hnew
  rw [← Except.ok.inj hnew]
  have hunique := replay_unique (by simp [InboxState.pending]) hreplay
  exact ⟨hseed, hreplay, hunique, hunique, by simp, by simp, by simp, by simp, by simp, by simp⟩

/-! ## Rejections -/

variable (id)

/-- A call that is rejected changes nothing else. -/
inductive Rejection (s : Inbox Id Message) (s' : Inbox Id Message) : Prop
  | threw (fault : InboxFault Id) : s' = s.threw fault → Rejection s s'
  | accepted : s'.outcomes = s.outcomes → Rejection s s'

theorem rejection_splice (s : Inbox Id Message) (target : InboxTarget)
    (start deleteCount : Numeric) (inserted : List Message) (vetoed : Bool) :
    Rejection s (s.splice id target start deleteCount inserted vetoed) := by
  delta Inbox.splice
  rcases s.mutate id target start deleteCount inserted true vetoed with fault | _ | splice
  · exact .threw fault rfl
  · exact .accepted rfl
  · exact .accepted rfl

theorem rejection_claimTurn (s : Inbox Id Message) (target : InboxTarget) (turn : ℕ)
    (claimed : List Message) (vetoed : Bool) :
    Rejection s (s.claimTurn id target turn claimed vetoed) := by
  rcases target with _ | _
  · delta Inbox.claimTurn
    dsimp only
    rcases s.mutate id .nextTurn 0 1 [] false vetoed with fault | _ | splice
    · exact .threw fault rfl
    · exact .accepted rfl
    · exact .accepted rfl
  · exact .accepted rfl

theorem rejection_call (s : Inbox Id Message) (vetoed : Bool) (call : InboxCall Id Message) :
    Rejection s (s.call id vetoed call) := by
  cases call with
  | splice | append | prepend => exact rejection_splice id _ _ _ _ _ _
  | replace messageId newMessage =>
    rw [Inbox.call]
    rcases locate id s.state messageId with _ | ⟨target, index⟩
    · exact .accepted rfl
    · exact rejection_splice id _ _ _ _ _ _
  | remove messageId =>
    rw [Inbox.call]
    rcases locate id s.state messageId with _ | ⟨target, index⟩
    · exact .accepted rfl
    · exact rejection_splice id _ _ _ _ _ _
  | claim target turn =>
    delta Inbox.call Inbox.claim
    dsimp only
    rcases s.mutate id .nextStep 0 (.finite s.state.nextStep.length) [] false vetoed
      with fault | _ | splice
    · exact .threw fault rfl
    · exact rejection_claimTurn id _ _ _ _ _
    · exact .accepted rfl
  | clear =>
    delta Inbox.call Inbox.clear
    dsimp only
    rcases s.mutate id .nextStep 0 (.finite s.state.nextStep.length) [] true vetoed
      with fault | _ | splice
    · exact .threw fault rfl
    · exact rejection_splice id _ _ _ _ _ _
    · exact .accepted rfl
  | otherAppend =>
    rw [Inbox.call]
    split_ifs
    · exact .accepted rfl
    · exact .accepted rfl

variable {id}

theorem claimTurn_outcomes (hunique : (s.state.pending.map id).Nodup)
    (happending : s.appending = false) {target : InboxTarget} {turn : ℕ} {claimed : List Message}
    {vetoed : Bool}
    (hveto : vetoed = true → target = .nextTurn → s.state.nextTurn = []) :
    (s.claimTurn id target turn claimed vetoed).outcomes = s.outcomes := by
  rcases target with _ | _
  · have hempty : vetoed = true → s.state.get .nextTurn = [] := fun hv ↦ hveto hv rfl
    obtain ⟨splice?, hok⟩ : ∃ splice?, s.mutate id .nextTurn 0 1 [] false vetoed = .ok splice? :=
      mutate_delete hunique happending hempty
    delta Inbox.claimTurn
    dsimp only
    rw [hok]
    rcases splice? with _ | splice
    · rfl
    · rfl
  · rfl

/-- The second half of a claim is not rejected once messages have been claimed. -/
theorem Ok.published_outcomes {splice : InboxSplice Message} {after : AfterSplice Message}
    {rest : List (InboxTask Message)} (h : Ok id seedLength s [] [])
    (htodo : s.todo = .publish splice after :: rest) {vetoed : Bool}
    (hmeets : (InboxAction.next vetoed : InboxAction Id Message).Meets s) :
    ({ s with todo := rest }.published id splice after vetoed).outcomes = s.outcomes := by
  rcases after with standard | ⟨target, turn⟩ | ⟨turn, claimed⟩
  · rfl
  · have hunique := h.settledUnique
    rw [settled, htodo] at hunique
    apply claimTurn_outcomes hunique
    · exact List.any_eq_false.mpr (by simpa using h.rest_idle htodo)
    · rintro rfl rfl
      exact h.nextTurn_of_meets htodo hmeets
  · rfl

/-- **A rejected mutation changes neither the log nor the lists.** -/
theorem Ok.rejected (h : Ok id seedLength s [] []) {action : InboxAction Id Message}
    (hmeets : action.Meets s) {fault : InboxFault Id}
    (hthrew : (s.step id action).outcomes = s.outcomes ++ [.threw fault]) :
    (s.step id action).log = s.log ∧ (s.step id action).state = s.state := by
  have haccepted {s' : Inbox Id Message} (hsame : s'.outcomes = s.outcomes)
      (hthrew : s'.outcomes = s.outcomes ++ [.threw fault]) : False := by
    simp [hsame] at hthrew
  rcases action with ⟨call, vetoed⟩ | vetoed
  · rcases rejection_call id s vetoed call with ⟨fault', heq⟩ | hsame
    · rw [Inbox.step, heq]
      exact ⟨rfl, rfl⟩
    · exact (haccepted hsame hthrew).elim
  rw [Inbox.step] at hthrew ⊢
  rcases htodo : s.todo with _ | ⟨task, rest⟩
  · exact ⟨rfl, rfl⟩
  rw [htodo] at hthrew
  rcases task with ⟨splice, after⟩ | _ | notification | _ | ⟨messages, standard⟩
  · exact (haccepted (h.published_outcomes htodo hmeets) hthrew).elim
  · exact ⟨rfl, rfl⟩
  · exact ⟨rfl, rfl⟩
  · rcases rejection_splice id { s with todo := rest } .nextTurn 0
      (.finite s.state.nextTurn.length) [] vetoed with ⟨fault', heq⟩ | hsame
    · simp only [Inbox.clearTurn, heq]
      exact ⟨rfl, rfl⟩
    · exact (haccepted hsame hthrew).elim
  · exact ⟨rfl, rfl⟩

/-! ## What `splice` rejects -/

/-- Where no event is being published, nothing is vetoed and identities stay unique, `splice`
rejects what does something at a start that is truncated to a negative zero, and nothing else. -/
theorem splice_rejects_iff {target : InboxTarget} {start deleteCount : Numeric}
    {inserted : List Message} (happending : s.appending = false)
    (hunique : (((s.state.set (Ecma.splice (s.state.get target) start deleteCount inserted).2
      target).pending).map id).Nodup) :
    (∃ fault, s.splice id target start deleteCount inserted false = s.threw fault) ↔
      start.trunc = .negativeZero ∧
        ¬ ((Ecma.splice (s.state.get target) start deleteCount inserted).1 = [] ∧
          inserted = []) := by
  delta Inbox.splice
  rcases hnormalized : normalized s.state target start deleteCount inserted true with _ | splice
  · have hmutate : s.mutate id target start deleteCount inserted true false = .ok none := by
      delta Inbox.mutate
      rw [hnormalized]
    rw [hmutate]
    refine iff_of_false ?_ fun h ↦ h.2 (normalized_eq_none.mp hnormalized)
    rintro ⟨fault, hthrew⟩
    have houtcomes := congrArg Inbox.outcomes hthrew
    simp [threw] at houtcomes
  have hsome : ¬ ((Ecma.splice (s.state.get target) start deleteCount inserted).1 = [] ∧
      inserted = []) := fun h ↦
    absurd (hnormalized.symm.trans (normalized_eq_none.mpr h)) (by simp)
  obtain ⟨-, hstart, -, hcount⟩ := normalized_eq_some hnormalized
  have hvalid : validate id s.state splice = .ok () := by
    rw [validate_normalized id hnormalized, spliced_normalized hnormalized]
    exact hunique
  have hjson := isJson_actualStart (s.state.get target).length start
  rw [← hstart] at hjson
  have hcountJson : (splice.removedCount.getD 0).isJson = true := by
    rw [hcount]
    rfl
  by_cases hzero : start.trunc = .negativeZero
  · refine iff_of_true ⟨.notJson, ?_⟩ ⟨hzero, hsome⟩
    have hno : splice.start.isJson = false := by simpa [hzero] using hjson
    have hmutate : s.mutate id target start deleteCount inserted true false = .error .notJson := by
      delta Inbox.mutate
      rw [hnormalized]
      simp [hvalid, appendSplice, hno]
    rw [hmutate]
  · refine iff_of_false ?_ fun h ↦ hzero h.1
    have hyes : splice.start.isJson = true := hjson.mpr hzero
    have hmutate : s.mutate id target start deleteCount inserted true false
        = .ok (some splice) := by
      have happend : s.appendSplice splice false = .ok () := by
        rw [appendSplice, hyes, hcountJson, happending]
        rfl
      delta Inbox.mutate
      rw [hnormalized]
      simp only [hvalid, happend]
    rw [hmutate]
    rintro ⟨fault, hthrew⟩
    have houtcomes := congrArg Inbox.outcomes hthrew
    simp [threw, publish] at houtcomes

/-! ## The results -/

/-- **In a run without such a start or veto**, the log rebuilds the lists, identities are unique,
what was inserted is pending, claimed or discarded, and what was claimed or discarded is announced
once, or is about to be. A rejected mutation changes nothing and is not rejected for its
coordinates, and `splice` returns what `Array.prototype.splice` does. -/
theorem inbox_conserves {log : List (InboxEvent Message)} {seedLength : Option ℕ}
    {s₀ : Inbox Id Message} (hnew : new id log seedLength = .ok s₀)
    (hseed : seedLength.getD 0 ≤ log.length) {actions : List (InboxAction Id Message)}
    (hmeets : MeetsAll id s₀ actions) :
    let s := s₀.run id actions
    (∃ rebuilt : Inbox Id Message, new id s.log seedLength = .ok rebuilt ∧
      ((∀ task ∈ s.todo, task.publication? = none) → rebuilt.state = s.state) ∧
      ∀ splice after, .publish splice after ∈ s.todo →
        rebuilt.state = (s.state.spliced splice).2) ∧
    (s.state.pending.map id).Nodup ∧
    s.inserted.Perm (s.state.pending ++ s.claimed ++ s.discarded) ∧
    (s.announced.flatMap (·.claims) ++ s.todo.flatMap (·.claims)).Perm s.claimed ∧
    (s.announced.flatMap (·.discards) ++ s.todo.flatMap (·.discards)).Perm s.discarded ∧
    (∀ action fault, action.Meets s →
      (s.step id action).outcomes = s.outcomes ++ [.threw fault] →
      (s.step id action).log = s.log ∧ (s.step id action).state = s.state) ∧
    (∀ fault, .threw fault ∈ s.outcomes → fault.Ordinary) ∧
    (∀ messages standard, .returned messages (some standard) ∈ s.outcomes →
      messages = standard) ∧
    ∀ target start deleteCount inserted, s.appending = false →
      (((s.state.set (Ecma.splice (s.state.get target) start deleteCount inserted).2
        target).pending).map id).Nodup →
      ((∃ fault, s.splice id target start deleteCount inserted false = s.threw fault) ↔
        start.trunc = .negativeZero ∧
          ¬ ((Ecma.splice (s.state.get target) start deleteCount inserted).1 = [] ∧
            inserted = [])) := by
  intro s
  have hok : Ok id (seedLength.getD 0) s [] [] := (Ok.new hnew hseed).run hmeets
  refine ⟨⟨{ log := s.log, state := s.settled, inserted := s.settled.pending }, ?_, ?_, ?_⟩,
    hok.unique, hok.conserved, ?_, ?_, ?_, ?_, ?_, ?_⟩
  · rw [new, hok.replayed]
  · intro hidle
    rw [settled, List.findSome?_eq_none_iff.mpr hidle]
  · intro splice after hmem
    obtain ⟨front, rest, hsplit⟩ := List.append_of_mem hmem
    -- The publication is the only one, so it is the first.
    have hfront : ∀ task ∈ front, task.publication? = none := by
      intro task htask
      apply InboxTask.publication?_eq_none
      by_contra hpublishes
      have hsingle := hok.single
      have hpos : 0 < (front.filter (·.publishes)).length :=
        List.length_pos_of_mem (List.mem_filter.mpr ⟨htask, by simpa using hpublishes⟩)
      rw [hsplit, List.filter_append, List.length_append, List.filter_cons_of_pos rfl,
        List.length_cons] at hsingle
      omega
    rw [settled, hsplit, List.findSome?_append, List.findSome?_eq_none_iff.mpr hfront]
    rfl
  · simpa using hok.claims
  · simpa using hok.discards
  · exact fun action fault hmeets hthrew ↦ hok.rejected hmeets hthrew
  · exact fun fault hmem ↦ hok.returned _ hmem
  · exact fun messages standard hmem ↦ hok.returned _ hmem _ rfl
  · exact fun target start deleteCount inserted happending hunique ↦
      splice_rejects_iff happending hunique

/-- One message is claimed and one is discarded, out of three. -/
theorem inbox_conserves_claim :
    let s := ({ log := [] } : Inbox ℕ ℕ).run (fun m ↦ m)
      [.call (.append .nextStep 1) false, .next false, .next false, .next false,
        .call (.splice .nextTurn (.finite (-1)) .nan [2, 3]) false, .next false, .next false,
        .next false, .next false, .call (.claim .nextStep 1) false, .next false, .next false,
        .next false, .call (.remove 3) false, .next false, .next false, .next false]
    s.inserted.Perm (s.state.pending ++ s.claimed ++ s.discarded) := by
  have hnew : new (fun m ↦ m) [] none = .ok ({ log := [] } : Inbox ℕ ℕ) := rfl
  apply (inbox_conserves hnew (Nat.zero_le _) ?_).2.2.1
  simp only [MeetsAll, InboxAction.Meets, true_and, and_true]
  simp [Numeric.trunc]

/-- A start that is truncated to a negative zero: nothing is in the way of inserting the message,
and `Array.prototype.splice` would, but the call throws. -/
theorem negativeZero_rejected :
    let s : Inbox ℕ ℕ := { log := [] }
    new (fun m ↦ m) [] none = .ok s ∧ s.appending = false ∧
      Ecma.splice (s.state.get .nextTurn) (.finite (-1 / 2)) 0 [7] = ([], [7]) ∧
      ∃ fault, s.run (fun m ↦ m) [.call (.splice .nextTurn (.finite (-1 / 2)) 0 [7]) false]
        = s.threw fault := by
  intro s
  have hsplice : Ecma.splice (s.state.get .nextTurn) (.finite (-1 / 2)) 0 [7] = ([], [7]) := by
    decide +kernel
  have htrunc : (Numeric.finite (-1 / 2)).trunc = .negativeZero := by decide +kernel
  refine ⟨rfl, rfl, hsplice, ?_⟩
  apply (splice_rejects_iff rfl ?_).mpr ⟨htrunc, by simp⟩
  rw [hsplice]
  decide

end Inbox

end XxAgent
