import XxAgent.Compaction.Region
import XxAgent.Log.Matching
import XxAgent.Session.TurnInvariant

/-!
# Balanced cuts are pair boundaries

The balance counts calls and results; which result answers which call is not looked at. Where every
result follows the one request that it answers, and replacements keep to balanced ranges, the count
is that of the calls without an answer, over any chain of rewrites and compactions.
-/

namespace XxAgent.Compaction

open Ecma Matching

/-! ## Calls and results -/

/-- A call of a step. -/
abbrev CallKey := ℕ × ℕ × CallId

/-- The calls that an event requests. -/
def requestKeys (e : LogEvent) : List CallKey :=
  match e.data with
  | .assistantMessage turn step _ => e.requests.map fun id ↦ (turn, step, id)
  | _ => []

/-- The call that an event is the result of. -/
def resultKey (e : LogEvent) : Option CallKey :=
  match e.data with
  | .toolResult turn step message _ => some (turn, step, message.callId)
  | _ => none

/-- The call that an event answers; a rewrite of a result does not answer it once more. -/
def answerKey (e : LogEvent) : Option CallKey :=
  if e.surfaceOp = some .append then resultKey e else none

/-- Call ids are distinct within each step, a call has at most one append result in its step, and
that follows the request. -/
structure AnsweredInStep (log : List LogEvent) : Prop where
  requests : (log.flatMap requestKeys).Nodup
  answers : (log.filterMap answerKey).Nodup
  follows : ∀ front, front <+: log → front.filterMap answerKey ⊆ front.flatMap requestKeys

/-- A replacement rewrites the result of one call, or is a checkpoint over a range that is accepted
behind the events before it. -/
def AllowedReplacement (before : List StoredEvent) (surface : SurfaceFoldState) (e : LogEvent)
    (start stop : ℕ) : Prop :=
  (start = stop ∧ ∃ key original, resultKey e = some key ∧ (typed before)[start]? = some original ∧
    resultKey original = some key) ∨
  (e.data = .userMessage ∧ ∃ selection,
    (validateSurfaceRegion ⟨before, surface, none⟩ start stop).1 = .ok selection)

def ReplacementsAllowed (events : List StoredEvent) : Prop :=
  ∀ before e, before ++ [e] <+: events → ∀ start stop,
    e.event.surfaceOp = some (.replace start stop) →
      ∀ surface, surfaceAfter (stored before) = .ok surface →
        AllowedReplacement before surface e.event start stop

/-! ## Events on the surface -/

/-- The events on a surface, in its order. -/
def onSurface (log : List LogEvent) (nodes : List ℕ) : List LogEvent :=
  nodes.filterMap fun seq ↦ log[seq]?

variable {log : List LogEvent} {nodes : List ℕ}

@[simp] theorem onSurface_append (log : List LogEvent) (front back : List ℕ) :
    onSurface log (front ++ back) = onSurface log front ++ onSurface log back :=
  List.filterMap_append

theorem onSurface_cons {seq : ℕ} {e : LogEvent} (h : log[seq]? = some e) (tail : List ℕ) :
    onSurface log (seq :: tail) = e :: onSurface log tail :=
  List.filterMap_cons_some (f := fun seq ↦ log[seq]?) h

theorem onSurface_concat_log (hnodes : ∀ seq ∈ nodes, seq < log.length) (e : LogEvent) :
    onSurface (log ++ [e]) nodes = onSurface log nodes :=
  List.filterMap_congr fun seq hseq ↦ List.getElem?_append_left (hnodes seq hseq)

theorem onSurface_cons_last (hnodes : ∀ seq ∈ nodes, seq < log.length) (e : LogEvent) :
    onSurface (log ++ [e]) (log.length :: nodes) = e :: onSurface log nodes := by
  rw [onSurface_cons List.getElem?_concat_length, onSurface_concat_log hnodes]

/-- An event changes the count by its calls and its result. -/
theorem eventDelta_eq (e : LogEvent) :
    eventDelta e = (requestKeys e).length - (resultKey e).toList.length := by
  rw [eventDelta.eq_def, requestKeys, resultKey, LogEvent.requests.eq_def]
  cases e.data with
  | assistantMessage turn step content =>
    simp only [List.length_map, Option.toList_none, List.length_nil, Nat.cast_zero, sub_zero,
      Nat.cast_inj]
    induction content with
    | nil => rfl
    | cons block rest ih => cases block <;> simp [ih]
  | toolResult turn step message error => simp
  | _ => simp

/-- The count is the balance of the keys. -/
theorem inProgress_eq_balance (hnodes : ∀ seq ∈ nodes, seq < log.length) :
    inProgress log nodes = balance requestKeys resultKey (onSurface log nodes) := by
  induction nodes with
  | nil => rfl
  | cons seq tail ih =>
    rw [List.forall_mem_cons] at hnodes
    have hget : log[seq]? = some log[seq] := List.getElem?_eq_getElem hnodes.1
    rw [inProgress_cons, ih hnodes.2, deltaAt, hget, onSurface_cons hget, balance, balance,
      opened_cons, closed_cons, Option.map_some, Option.getD_some,
      eventDelta_eq, List.length_append, List.length_append]
    push_cast
    ring

/-! ## The invariant -/

/-- A surface whose calls and results are matched, and which shows every call without an answer. -/
structure PairedSurface (log : List LogEvent) (nodes : List ℕ) : Prop where
  matched : Matched requestKeys resultKey (onSurface log nodes)
  requested : opened requestKeys (onSurface log nodes) ⊆ log.flatMap requestKeys
  answered : closed resultKey (onSurface log nodes) ⊆ log.filterMap answerKey
  waiting : ∀ key ∈ log.flatMap requestKeys, key ∉ log.filterMap answerKey →
    key ∈ opened requestKeys (onSurface log nodes)

/-- A cut is a pair boundary. -/
def Boundary (log : List LogEvent) (nodes : List ℕ) (k : ℕ) : Prop :=
  Settled requestKeys resultKey (onSurface log (nodes.take k))

theorem PairedSurface.balanced_iff (hpaired : PairedSurface log nodes)
    (hnodes : ∀ seq ∈ nodes, seq < log.length) (k : ℕ) :
    0 ≤ inProgress log (nodes.take k) ∧
      (inProgress log (nodes.take k) = 0 ↔ Boundary log nodes k) := by
  have hmatched := hpaired.matched
  rw [← List.take_append_drop k nodes, onSurface_append] at hmatched
  rw [inProgress_eq_balance fun seq hseq ↦ hnodes seq (List.mem_of_mem_take hseq)]
  exact ⟨hmatched.of_append.balance_nonneg, hmatched.of_append.balance_eq_zero_iff⟩

/-- The surface has no result without a call. -/
theorem PairedSurface.orphan_eq_none (hpaired : PairedSurface log nodes)
    (hnodes : ∀ seq ∈ nodes, seq < log.length) : orphan log nodes = none := by
  have hfrom (front back : List ℕ) (hsplit : nodes = front ++ back) :
      orphanIn log (inProgress log front) back = none := by
    induction back generalizing front with
    | nil => rfl
    | cons seq tail ih =>
      have hsplit' : nodes = (front ++ [seq]) ++ tail := by
        rw [hsplit, List.append_assoc, List.singleton_append]
      have hnext := ih (front ++ [seq]) hsplit'
      have hcount : inProgress log (front ++ [seq]) = inProgress log front + deltaAt log seq := by
        rw [inProgress_append, inProgress_cons, inProgress_nil, add_zero]
      have hnonneg := (hpaired.balanced_iff hnodes (front ++ [seq]).length).1
      have htake : nodes.take (front ++ [seq]).length = front ++ [seq] := by
        rw [hsplit', List.take_left]
      rw [htake, hcount] at hnonneg
      rw [orphanIn, if_neg (not_lt.mpr hnonneg), ← hcount]
      exact hnext
  exact hfrom [] nodes rfl

/-! ## Steps -/

theorem AnsweredInStep.of_prefix {front : List LogEvent} (h : AnsweredInStep log)
    (hfront : front <+: log) : AnsweredInStep front where
  requests := by
    obtain ⟨rest, rfl⟩ := hfront
    have hrequests := h.requests
    rw [List.flatMap_append, List.nodup_append] at hrequests
    exact hrequests.1
  answers := h.answers.sublist (hfront.sublist.filterMap answerKey)
  follows p hp := h.follows p (hp.trans hfront)

theorem requestKeys_eq_nil {e : LogEvent} {key : CallKey} (h : resultKey e = some key) :
    requestKeys e = [] := by
  rw [resultKey] at h
  rw [requestKeys]
  cases hdata : e.data with
  | assistantMessage turn step content => simp [hdata] at h
  | _ => rfl

/-- An event that does not join the surface has neither calls nor a result. -/
theorem keys_of_unmarked {e : LogEvent}
    (h : isSurfaceEligibleType (some (.str e.data.type)) = false) :
    requestKeys e = [] ∧ resultKey e = none := by
  rw [requestKeys, resultKey]
  cases hdata : e.data with
  | assistantMessage turn step content =>
    have heligible : isSurfaceEligibleType (some (.str (js "assistant/message"))) = true := by
      decide +kernel
    rw [hdata] at h
    exact absurd (heligible.symm.trans h) (by simp)
  | toolResult turn step message error =>
    have heligible : isSurfaceEligibleType (some (.str (js "tool/result"))) = true := by
      decide +kernel
    rw [hdata] at h
    exact absurd (heligible.symm.trans h) (by simp)
  | _ => exact ⟨rfl, rfl⟩

variable {e : LogEvent}

/-- An event that brings neither calls nor answers, over a surface that shows the same. -/
theorem PairedSurface.concat (hpaired : PairedSurface log nodes) {nodes' : List ℕ}
    (hrequests : requestKeys e = []) (hanswer : answerKey e = none)
    (hmatched : Matched requestKeys resultKey (onSurface (log ++ [e]) nodes'))
    (hopened : opened requestKeys (onSurface (log ++ [e]) nodes')
      ⊆ opened requestKeys (onSurface log nodes))
    (hclosed : closed resultKey (onSurface (log ++ [e]) nodes')
      ⊆ closed resultKey (onSurface log nodes))
    (hwaiting : ∀ key ∈ opened requestKeys (onSurface log nodes), key ∉ log.filterMap answerKey →
      key ∈ opened requestKeys (onSurface (log ++ [e]) nodes')) :
    PairedSurface (log ++ [e]) nodes' := by
  have hlog : (log ++ [e]).flatMap requestKeys = log.flatMap requestKeys := by
    rw [List.flatMap_append, List.flatMap_singleton, hrequests, List.append_nil]
  have hanswers : (log ++ [e]).filterMap answerKey = log.filterMap answerKey := by
    rw [List.filterMap_append, List.filterMap_cons_none hanswer, List.filterMap_nil,
      List.append_nil]
  refine ⟨hmatched, ?_, ?_, ?_⟩
  · rw [hlog]
    exact List.Subset.trans hopened hpaired.requested
  · rw [hanswers]
    exact List.Subset.trans hclosed hpaired.answered
  · rw [hlog, hanswers]
    exact fun key hkey hnone ↦ hwaiting key (hpaired.waiting key hkey hnone) hnone

theorem PairedSurface.append (hpaired : PairedSurface log nodes)
    (hnodes : ∀ seq ∈ nodes, seq < log.length) (hanswered : AnsweredInStep (log ++ [e]))
    (hop : e.surfaceOp = some .append) : PairedSurface (log ++ [e]) (nodes ++ [log.length]) := by
  have hlast : onSurface (log ++ [e]) (nodes ++ [log.length]) = onSurface log nodes ++ [e] := by
    rw [onSurface_append, onSurface_concat_log hnodes, onSurface_cons_last (by simp)]
    rfl
  have hanswer : answerKey e = resultKey e := if_pos hop
  have hrequests := hanswered.requests
  have hanswers := hanswered.answers
  have hfollows := hanswered.follows _ (List.prefix_refl _)
  rw [List.flatMap_append, List.flatMap_singleton] at hrequests hfollows
  rw [List.filterMap_append] at hanswers hfollows
  have hnew : closed resultKey [e] = [e].filterMap answerKey := by
    rw [closed, List.filterMap_cons, List.filterMap_cons, hanswer, List.filterMap_nil,
      List.filterMap_nil]
  rw [List.nodup_append] at hrequests hanswers
  have hmatched : Matched requestKeys resultKey (onSurface log nodes ++ [e]) := by
    cases hresult : resultKey e with
    | none =>
      refine hpaired.matched.concat_opens hresult hrequests.2.1 fun key hkey hin ↦ ?_
      exact hrequests.2.2 key (hpaired.requested hin) key hkey rfl
    | some key =>
      have hkey : key ∈ [e].filterMap answerKey := by
        rw [List.filterMap_cons_some (hanswer.trans hresult)]
        exact List.mem_cons_self
      have hfresh : key ∉ log.filterMap answerKey := fun hin ↦ hanswers.2.2 key hin key hkey rfl
      have hrequested := hfollows (List.mem_append_right _ hkey)
      rw [requestKeys_eq_nil hresult, List.append_nil] at hrequested
      exact hpaired.matched.concat_closes hresult (requestKeys_eq_nil hresult)
        (hpaired.waiting key hrequested hfresh) fun hin ↦ hfresh (hpaired.answered hin)
  refine ⟨hlast ▸ hmatched, ?_, ?_, ?_⟩
  · rw [hlast, opened_append, opened_cons, opened_nil, List.append_nil, List.flatMap_append,
      List.flatMap_singleton]
    exact List.append_subset.mpr ⟨List.subset_append_of_subset_left _ hpaired.requested,
      List.subset_append_right _ _⟩
  · rw [hlast, closed_append, List.filterMap_append, hnew]
    exact List.append_subset.mpr ⟨List.subset_append_of_subset_left _ hpaired.answered,
      List.subset_append_right _ _⟩
  · rw [hlast, opened_append, opened_cons, opened_nil, List.append_nil, List.flatMap_append,
      List.flatMap_singleton, List.filterMap_append]
    intro key hkey hnone
    rw [List.mem_append, not_or] at hnone
    rcases List.mem_append.mp hkey with hkey | hkey
    · exact List.mem_append_left _ (hpaired.waiting key hkey hnone.1)
    · exact List.mem_append_right _ hkey

/-- The result of a call is rewritten. -/
theorem PairedSurface.rewrite {front back : List ℕ} {target : ℕ} {original : LogEvent}
    {key : CallKey} (hpaired : PairedSurface log (front ++ target :: back))
    (hnodes : ∀ seq ∈ front ++ target :: back, seq < log.length) (hop : e.surfaceOp ≠ some .append)
    (hresult : resultKey e = some key) (horiginal : log[target]? = some original)
    (hsame : resultKey original = some key) :
    PairedSurface (log ++ [e]) (front ++ log.length :: back) := by
  rw [List.forall_mem_append, List.forall_mem_cons] at hnodes
  have hold : onSurface log (front ++ target :: back)
      = onSurface log front ++ original :: onSurface log back := by
    rw [onSurface_append, onSurface_cons horiginal]
  have hnew : onSurface (log ++ [e]) (front ++ log.length :: back)
      = onSurface log front ++ e :: onSurface log back := by
    rw [onSurface_append, onSurface_concat_log hnodes.1, onSurface_cons_last hnodes.2.2]
  have hopens : requestKeys e = requestKeys original :=
    (requestKeys_eq_nil hresult).trans (requestKeys_eq_nil hsame).symm
  have hcloses : resultKey e = resultKey original := hresult.trans hsame.symm
  have hmatched := hpaired.matched
  rw [hold] at hmatched
  refine hpaired.concat (requestKeys_eq_nil hresult) (if_neg hop)
    (hnew ▸ hmatched.replace_item hopens hcloses) ?_ ?_ fun key hkey _ ↦ ?_
  · rw [hnew, hold]
    simp [hopens]
  · rw [hnew, hold]
    simp [hcloses]
  · rw [hold] at hkey
    rw [hnew]
    simpa [hopens] using hkey

/-- A run between two pair boundaries is replaced by a checkpoint. -/
theorem PairedSurface.checkpoint {front mid back : List ℕ}
    (hpaired : PairedSurface log (front ++ (mid ++ back)))
    (hnodes : ∀ seq ∈ front ++ (mid ++ back), seq < log.length) (hdata : e.data = .userMessage)
    (hfront : Settled requestKeys resultKey (onSurface log front))
    (hmid : Settled requestKeys resultKey (onSurface log (front ++ mid))) :
    PairedSurface (log ++ [e]) (front ++ log.length :: back) := by
  rw [List.forall_mem_append, List.forall_mem_append] at hnodes
  have hold : onSurface log (front ++ (mid ++ back))
      = onSurface log front ++ (onSurface log mid ++ onSurface log back) := by
    rw [onSurface_append, onSurface_append]
  have hnew : onSurface (log ++ [e]) (front ++ log.length :: back)
      = onSurface log front ++ e :: onSurface log back := by
    rw [onSurface_append, onSurface_concat_log hnodes.1, onSurface_cons_last hnodes.2.2]
  have hopens : requestKeys e = [] := by rw [requestKeys, hdata]
  have hcloses : resultKey e = none := by rw [resultKey, hdata]
  have hanswer : answerKey e = none := by rw [answerKey, hcloses, ite_self]
  have hmatched := hpaired.matched
  rw [hold] at hmatched
  rw [onSurface_append] at hmid
  have hins : closed resultKey [e] = [] := by rw [closed_cons, hcloses]; rfl
  have hrun := hmatched.replace_run hfront hmid ((List.flatMap_singleton ..).trans hopens) hins
  refine hpaired.concat hopens hanswer (hnew ▸ hrun) ?_ ?_ fun key hkey hnone ↦ ?_
  · rw [hnew, hold]
    intro key hkey
    simp only [opened_append, opened_cons, hopens, List.nil_append, List.mem_append] at hkey ⊢
    exact hkey.imp_right .inr
  · rw [hnew, hold]
    intro key hkey
    simp only [closed_append, closed_cons, hcloses, Option.toList_none, List.nil_append,
      List.mem_append] at hkey ⊢
    exact hkey.imp_right .inr
  · -- What is not answered is not in the run, where all that is requested is answered.
    have hout : key ∉ opened requestKeys (onSurface log front ++ onSurface log mid) := by
      intro hin
      refine hnone (hpaired.answered ?_)
      rw [hold, ← List.append_assoc, closed_append]
      exact List.mem_append_left _ (hmid hin)
    rw [hold, ← List.append_assoc, opened_append, List.mem_append] at hkey
    have hback := hkey.resolve_left hout
    rw [hnew, opened_append, opened_cons]
    exact List.mem_append_right _ (List.mem_append_right _ hback)

/-! ## Logs -/

/-- **The surface stays paired**, over any chain of rewrites and compactions. -/
theorem pairedSurface_of_fold {events : List StoredEvent} {surface : SurfaceFoldState}
    (hfold : surfaceAfter (stored events) = .ok surface)
    (hanswered : AnsweredInStep (typed events)) (hallowed : ReplacementsAllowed events) :
    PairedSurface (typed events) surface.nodes := by
  induction events using List.reverseRecOn generalizing surface with
  | nil =>
    obtain rfl := Except.ok.inj hfold
    exact ⟨matched_nil, fun _ h ↦ h, fun _ h ↦ h, fun _ h ↦ absurd h List.not_mem_nil⟩
  | append_singleton front e ih =>
    rw [stored_append, surfaceAfter] at hfold
    obtain ⟨before, hbefore⟩ := Replay.exists_replay_of_append hfold
    change Replay.replay planNext commitPlan createFoldState (_ ++ [e.json]) = _ at hfold
    rw [Replay.replay_concat_of_ok hbefore] at hfold
    obtain ⟨plan, hplan, rfl⟩ := Replay.map_eq_ok.mp hfold
    have hsynced := synced_of_fold hbefore
    have hnodes : ∀ seq ∈ before.nodes, seq < (typed front).length :=
      fun seq hseq ↦ hsynced.onLog.lt_length hseq
    rw [typed_append] at hanswered ⊢
    have hpaired := ih hbefore (hanswered.of_prefix (List.prefix_append _ _))
      fun p e' hp ↦ hallowed p e' (hp.trans (List.prefix_append _ _))
    have heligible := eligible_of_planNext hplan
    have hreplace := hallowed front e (List.prefix_refl _)
    obtain ⟨-, hsurfaced⟩ := surfaced_of_planNext hplan
    rw [length_stored, ← length_typed] at hsurfaced
    change PairedSurface (typed front ++ [e.event]) _
    cases hop : e.event.surfaceOp with
    | none =>
      rw [hop] at heligible hsurfaced
      obtain ⟨hrequests, hresult⟩ := keys_of_unmarked heligible
      have hanswer : answerKey e.event = none := by rw [answerKey, hresult, ite_self]
      have hsame := onSurface_concat_log hnodes e.event
      generalize commitPlan before plan = after at hsurfaced
      cases hsurfaced with
      | skip =>
        refine hpaired.concat hrequests hanswer (hsame ▸ hpaired.matched) ?_ ?_ fun key hkey _ ↦ ?_
        · rw [hsame]
          exact fun _ h ↦ h
        · rw [hsame]
          exact fun _ h ↦ h
        · rw [hsame]
          exact hkey
    | some op =>
      cases op with
      | append =>
        rw [hop] at hsurfaced
        generalize commitPlan before plan = after at hsurfaced
        cases hsurfaced with
        | append => exact hpaired.append hnodes hanswered hop
      | replace start stop =>
        have hallow := hreplace start stop hop before hbefore
        rw [hop] at hsurfaced
        generalize commitPlan before plan = after at hsurfaced
        cases hsurfaced with
        | replace range =>
          rename_i i j shadowed
          obtain ⟨hi, hj, hij, rfl⟩ := replacementRange_eq_ok range
          obtain ⟨-, hrun⟩ := replacementRange_run range
          rcases hallow with ⟨rfl, key, original, hresult, horiginal, hsame⟩ |
            ⟨hdata, selection, hselection⟩
          · obtain rfl := Option.some.inj (hi.symm.trans hj)
            obtain ⟨hlt, hstart, -⟩ := List.idxOf?_eq_some_iff.mp hi
            have hsplit : before.nodes
                = before.nodes.take i ++ start :: before.nodes.drop (i + 1) := by
              rw [← hstart, ← List.drop_eq_getElem_cons hlt, List.take_append_drop]
            rw [hsplit] at hpaired hnodes
            exact hpaired.rewrite hnodes (by simp [hop]) hresult horiginal hsame
          · obtain ⟨i', j', hi', hj', -, hbi, hbj, -⟩ :=
              validateSurfaceRegion_eq_ok hsynced hselection
            obtain rfl := Option.some.inj (hi.symm.trans hi')
            obtain rfl := Option.some.inj (hj.symm.trans hj')
            have hfront := ((hpaired.balanced_iff hnodes i).2).mp hbi
            have hmid := ((hpaired.balanced_iff hnodes (j + 1)).2).mp hbj
            have htake : before.nodes.take (j + 1) = before.nodes.take i ++
                (before.nodes.drop i).take (j + 1 - i) := by
              rw [← List.take_add]
              congr 1
              omega
            rw [Boundary, htake] at hmid
            rw [hrun] at hpaired hnodes
            exact hpaired.checkpoint hnodes hdata hfront hmid

/-! ## Queries and regions -/

/-- A cut that no pair crosses: every call before it is answered before it, and no result before it
answers a call behind it. -/
def PairBoundary (log : List LogEvent) (nodes : List ℕ) (k : ℕ) : Prop :=
  (∀ key ∈ opened requestKeys (onSurface log (nodes.take k)),
    key ∈ closed resultKey (onSurface log (nodes.take k))) ∧
  ∀ key ∈ closed resultKey (onSurface log (nodes.take k)),
    key ∉ opened requestKeys (onSurface log (nodes.drop k))

instance (log : List LogEvent) (nodes : List ℕ) (k : ℕ) : Decidable (PairBoundary log nodes k) :=
  inferInstanceAs (Decidable (_ ∧ _))

/-- The balance of a session tells its pair boundaries, and an accepted region takes whole pairs. -/
structure BalancedCuts (st : PairingState) : Prop where
  before : ∀ (i seq : ℕ), st.surface.nodes[i]? = some seq →
    toolPairingBalancedBefore st.view st.cached seq
      = .ok (decide (PairBoundary (typed st.events) st.surface.nodes i))
  after : ∀ (i seq : ℕ), st.surface.nodes[i]? = some seq →
    toolPairingBalancedAfter st.view st.cached seq
      = .ok (decide (PairBoundary (typed st.events) st.surface.nodes (i + 1)))
  region : ∀ start stop selection, (validateSurfaceRegion st start stop).1 = .ok selection →
    let rest := onSurface (typed st.events) (st.surface.nodes.take selection.startIdx ++
      st.surface.nodes.drop (selection.endIdx + 1))
    closed resultKey rest ⊆ opened requestKeys rest ∧
      ∀ key ∈ opened requestKeys rest,
        key ∈ closed resultKey (onSurface (typed st.events) st.surface.nodes) →
          key ∈ closed resultKey rest

theorem PairedSurface.pairBoundary_iff (hpaired : PairedSurface log nodes) (k : ℕ) :
    PairBoundary log nodes k ↔ Boundary log nodes k := by
  refine and_iff_left_of_imp fun hsettled key hkey ↦ ?_
  have hmatched := hpaired.matched
  rw [← List.take_append_drop k nodes, onSurface_append] at hmatched
  exact hmatched.notMem_opened hkey

/-- **Balanced cuts are pair boundaries**, whatever was appended, replaced and asked before. -/
theorem balancedCuts_run (ops : List PairingOp)
    (hanswered : AnsweredInStep (typed (PairingState.run ops).events))
    (hallowed : ReplacementsAllowed (PairingState.run ops).events) :
    BalancedCuts (.run ops) := by
  have hsynced := synced_run ops
  generalize PairingState.run ops = st at *
  have hpaired := pairedSurface_of_fold hsynced.fold hanswered hallowed
  have hnodes : ∀ seq ∈ st.surface.nodes, seq < (typed st.events).length :=
    fun seq hseq ↦ hsynced.onLog.lt_length hseq
  have horphan := hpaired.orphan_eq_none hnodes
  have hiff (k : ℕ) : inProgress (typed st.events) (st.surface.nodes.take k) = 0 ↔
      PairBoundary (typed st.events) st.surface.nodes k :=
    (hpaired.balanced_iff hnodes k).2.trans (hpaired.pairBoundary_iff k).symm
  refine ⟨fun i seq hi ↦ ?_, fun i seq hi ↦ ?_, fun start stop selection h ↦ ?_⟩
  · rw [hsynced.toolPairingBalancedBefore_eq hi, horphan]
    exact congrArg Except.ok (decide_eq_decide.mpr (hiff i))
  · rw [hsynced.toolPairingBalancedAfter_eq hi, horphan]
    exact congrArg Except.ok (decide_eq_decide.mpr (hiff (i + 1)))
  · obtain ⟨i, j, -, -, hij, hbi, hbj, rfl⟩ := validateSurfaceRegion_eq_ok hsynced h
    have hfront := ((hpaired.balanced_iff hnodes i).2).mp hbi
    have hmid := ((hpaired.balanced_iff hnodes (j + 1)).2).mp hbj
    have htake : st.surface.nodes.take (j + 1) = st.surface.nodes.take i ++
        (st.surface.nodes.drop i).take (j + 1 - i) := by
      rw [← List.take_add]
      congr 1
      omega
    have hsplit : st.surface.nodes = st.surface.nodes.take i ++
        ((st.surface.nodes.drop i).take (j + 1 - i) ++ st.surface.nodes.drop (j + 1)) := by
      rw [← List.append_assoc, ← htake, List.take_append_drop]
    rw [Boundary, htake, onSurface_append] at hmid
    have hmatched := hpaired.matched
    have hwhole : onSurface (typed st.events) st.surface.nodes
        = onSurface (typed st.events) (st.surface.nodes.take i) ++
          (onSurface (typed st.events) ((st.surface.nodes.drop i).take (j + 1 - i)) ++
            onSurface (typed st.events) (st.surface.nodes.drop (j + 1))) := by
      conv_lhs => rw [hsplit]
      rw [onSurface_append, onSurface_append]
    rw [hwhole] at hmatched
    have hrest : Matched requestKeys resultKey
        (onSurface (typed st.events) (st.surface.nodes.take i) ++
          ([] ++ onSurface (typed st.events) (st.surface.nodes.drop (j + 1)))) :=
      hmatched.replace_run hfront hmid rfl rfl
    dsimp only
    rw [onSurface_append]
    refine ⟨hrest.closed_subset, fun key hkey hanswer ↦ ?_⟩
    rw [hwhole, closed_append, closed_append, List.mem_append, List.mem_append] at hanswer
    rw [closed_append, List.mem_append]
    refine hanswer.imp_right fun h ↦ h.resolve_left fun hin ↦ ?_
    -- A call outside the region is not one of the region.
    rw [← List.append_assoc] at hmatched
    have hcall := (hmatched.of_append.mem_opened_iff hfront hmid).mpr hin
    rw [List.append_assoc] at hmatched
    have hnodup := hmatched.opened
    simp only [opened_append, List.nodup_append, List.mem_append] at hnodup hkey
    rcases hkey with hkey | hkey
    · exact hnodup.2.2 key hkey key (.inl hcall) rfl
    · exact hnodup.2.1.2.2 key hcall key hkey rfl

/-! ## Runs that the checker accepts -/

/-- Two calls of one step, answered in the other order. -/
def answeredStep : List PairingOp := [
  .append (logged 0 (.turnStart 1) rfl),
  .append (logged 1 (.stepStart 1 1) rfl),
  .append (appended 2 (requestOf [js "c", js "d"]) rfl), .query,
  .append (logged 3 (.toolCall 1 1 (js "c")) rfl),
  .append (logged 4 (.toolCall 1 1 (js "d")) rfl),
  .append (resulted 5 (js "d")), .query,
  .append (resulted 6 (js "c"))]

theorem balancedCuts_answeredStep : BalancedCuts (.run answeredStep) := by
  refine balancedCuts_run answeredStep ⟨by decide +kernel, by decide +kernel, ?_⟩ ?_
  · intro front hfront
    have hinits : ∀ front ∈ (typed (PairingState.run answeredStep).events).inits,
        front.filterMap answerKey ⊆ front.flatMap requestKeys := by decide +kernel
    exact hinits front (List.mem_inits _ _ |>.mpr hfront)
  · intro before e hbegin start stop hop
    have hnone : ∀ e ∈ typed (PairingState.run answeredStep).events,
        e.surfaceOp = none ∨ e.surfaceOp = some .append := by decide +kernel
    have hin : e.event ∈ typed (PairingState.run answeredStep).events :=
      List.mem_map_of_mem (hbegin.subset (by simp))
    rcases hnone _ hin with h | h
    · simp [hop] at h
    · simp [hop] at h

/-- The checker accepts the log, no message requests an id twice, every request has an append result
behind it in its step, and nothing is replaced. -/
def EachAnswered (log : List LogEvent) : Prop :=
  (seedSession log).isOk ∧ (∀ e ∈ log, e.requests.Nodup) ∧
    (∀ e ∈ log, ∀ key ∈ requestKeys e, ∃ r ∈ log, e.seq < r.seq ∧ answerKey r = some key) ∧
    ∀ e ∈ log, e.surfaceOp = none ∨ e.surfaceOp = some .append

instance (log : List LogEvent) : Decidable (EachAnswered log) :=
  inferInstanceAs (Decidable (_ ∧ _ ∧ _ ∧ _))

/-- A call that is recorded, but was not requested. -/
def unrequestedResult : List PairingOp := [
  .append (logged 0 (.turnStart 1) rfl),
  .append (logged 1 (.stepStart 1 1) rfl),
  .append (logged 2 (.toolCall 1 1 (js "c")) rfl),
  .append (resulted 3 (js "c"))]

/-- A call that is requested twice in its step, and answered once. -/
def repeatedRequest : List PairingOp := [
  .append (logged 0 (.turnStart 1) rfl),
  .append (logged 1 (.stepStart 1 1) rfl),
  .append (appended 2 (requestOf [js "c"]) rfl),
  .append (appended 3 (requestOf [js "c"]) rfl),
  .append (logged 4 (.toolCall 1 1 (js "c")) rfl),
  .append (resulted 5 (js "c")),
  .append (prompted 6)]

/-- A call that is requested once, and answered twice. -/
def repeatedResult : List PairingOp := [
  .append (logged 0 (.turnStart 1) rfl),
  .append (logged 1 (.stepStart 1 1) rfl),
  .append (appended 2 (requestOf [js "c"]) rfl),
  .append (logged 3 (.toolCall 1 1 (js "c")) rfl),
  .append (resulted 4 (js "c")),
  .append (logged 5 (.toolCall 1 1 (js "c")) rfl),
  .append (resulted 6 (js "c"))]

/-- Queries fail on these logs, or deny a pair boundary. -/
theorem unpaired_runs :
    (EachAnswered (typed (PairingState.run unrequestedResult).events) ∧
      (PairingState.run unrequestedResult).surface.nodes = [3] ∧
      toolPairingBalancedBefore (PairingState.run unrequestedResult).view none 3
        = .error (.orphanResult 3)) ∧
    (EachAnswered (typed (PairingState.run repeatedRequest).events) ∧
      (PairingState.run repeatedRequest).surface.nodes = [2, 3, 5, 6] ∧
      PairBoundary (typed (PairingState.run repeatedRequest).events) [2, 3, 5, 6] 3 ∧
      toolPairingBalancedBefore (PairingState.run repeatedRequest).view none 6 = .ok false) ∧
    (EachAnswered (typed (PairingState.run repeatedResult).events) ∧
      (PairingState.run repeatedResult).surface.nodes = [2, 4, 6] ∧
      toolPairingBalancedBefore (PairingState.run repeatedResult).view none 2
        = .error (.orphanResult 6)) := by
  refine ⟨⟨?_, ?_, ?_⟩, ⟨?_, ?_, ?_, ?_⟩, ?_, ?_, ?_⟩ <;> decide +kernel

end XxAgent.Compaction
