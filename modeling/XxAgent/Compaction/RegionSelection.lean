import XxAgent.Compaction.Region

/-!
# The selected region

The selection takes the last position that is a balanced cut and retains enough, and gives up where
that is the head. A surface that shows a result without a call has no balance, and the selection
fails on it once it has a cut to look for. What is selected passes the validation of the
transaction.
-/

namespace XxAgent.Compaction

open Ecma

variable {M : Type*} [AddCommMonoid M] [LinearOrder M]

/-- A position before which the surface can be compacted. -/
structure Cuts (st : PairingState) (pricedNodes : List (PricedNode M)) (retainTokens : M) (k : ℕ) :
    Prop where
  lt : k < pricedNodes.length
  retained : retainTokens ≤ price (pricedNodes.drop k)
  balanced : BalancedAt st k

/-- What a selection gives. -/
structure ExactSelection (st : PairingState) (pricedNodes : List (PricedNode M)) (retainTokens : M)
    (outcome : Except RegionFault (Option (ℕ × ℕ)) × PairingState) : Prop where
  range : orphan (typed st.events) st.surface.nodes = none →
    ∀ k, IsGreatest {k | Cuts st pricedNodes retainTokens k} k → 0 < k →
      ∃ start stop, st.surface.nodes[0]? = some start ∧ st.surface.nodes[k - 1]? = some stop ∧
        outcome.1 = .ok (some (start, stop))
  null : orphan (typed st.events) st.surface.nodes = none →
    (∀ k, Cuts st pricedNodes retainTokens k → k = 0) → outcome.1 = .ok none
  orphaned : ∀ result, orphan (typed st.events) st.surface.nodes = some result →
    (∃ k, 0 < k ∧ k < pricedNodes.length ∧ retainTokens ≤ price (pricedNodes.drop k)) →
      outcome.1 = .error (.pairing (.orphanResult result))
  untouched : (¬ ∃ k, 0 < k ∧ k < pricedNodes.length ∧
    retainTokens ≤ price (pricedNodes.drop k)) → outcome.1 = .ok none
  unchanged : outcome.2.view = st.view
  accepted : ∀ start stop, outcome.1 = .ok (some (start, stop)) →
    ∃ k, (validateSurfaceRegion outcome.2 start stop).1
      = .ok ⟨start, stop, 0, k, st.surface.nodes.take (k + 1)⟩

variable {st : PairingState}

/-- A region from the head to a balanced cut passes. -/
theorem validateSurfaceRegion_head (hsynced : Synced st)
    (horphan : orphan (typed st.events) st.surface.nodes = none) {k start stop : ℕ}
    (hstart : st.surface.nodes[0]? = some start) (hstop : st.surface.nodes[k]? = some stop)
    (hbalanced : BalancedAt st (k + 1)) : (validateSurfaceRegion st start stop).1
      = .ok ⟨start, stop, 0, k, st.surface.nodes.take (k + 1)⟩ := by
  have hindex {i seq : ℕ} (h : st.surface.nodes[i]? = some seq) :
      st.surface.nodes.idxOf? seq = some i := by
    obtain ⟨hlt, rfl⟩ := List.getElem?_eq_some_iff.mp h
    rw [List.idxOf?_eq_some_iff]
    refine ⟨hlt, rfl, fun j hj heq ↦ ?_⟩
    have := (List.Nodup.getElem_inj_iff hsynced.onLog.nodup).mp heq
    omega
  have hbefore := hsynced.toolPairingBalancedBefore_eq hstart
  have hafter := @Synced.toolPairingBalancedAfter_eq _ hsynced.query k stop hstop
  have horphan' : orphan (typed st.query.events) st.query.surface.nodes = none := horphan
  rw [horphan] at hbefore
  rw [horphan'] at hafter
  have hzero : decide (inProgress (typed st.events) (st.surface.nodes.take 0) = 0) = true :=
    decide_eq_true (balancedAt_zero st)
  have hlast : decide (inProgress (typed st.query.events) (st.query.surface.nodes.take (k + 1)) = 0)
      = true := decide_eq_true hbalanced
  dsimp only at hbefore hafter
  rw [hzero] at hbefore
  rw [hlast] at hafter
  rw [validateSurfaceRegion, hindex hstart, hindex hstop]
  dsimp only
  rw [if_neg (Nat.not_lt_zero k), hbefore]
  dsimp only
  rw [hafter]
  rfl

variable [IsOrderedAddMonoid M]

/-- **Range selection is exact**, in every session, whatever was asked of its cache before. -/
theorem selectCompactableRange_exact (ops : List PairingOp) (pricedNodes : List (PricedNode M))
    (retainTokens : M)
    (hmeasured : pricedNodes.map PricedNode.seq = (PairingState.run ops).surface.nodes)
    (htokens : ∀ node ∈ pricedNodes, 0 ≤ node.tokens) :
    ExactSelection (.run ops) pricedNodes retainTokens
      (selectCompactableRange (.run ops) pricedNodes retainTokens) := by
  have hsynced := synced_run ops
  generalize PairingState.run ops = st at hmeasured hsynced
  have hlength : st.surface.nodes.length = pricedNodes.length := by
    rw [← hmeasured, List.length_map]
  rw [selectCompactableRange]
  by_cases hempty : pricedNodes.length = 0
  · rw [if_pos hempty]
    refine ⟨fun _ k hk _ ↦ absurd hk.1.lt (by omega), fun _ _ ↦ rfl, ?_, fun _ ↦ rfl, rfl,
      fun _ _ h ↦ absurd (Except.ok.inj h) (by simp)⟩
    rintro result - ⟨k, -, hlt, -⟩
    omega
  rw [if_neg hempty, if_neg (not_not.mpr hmeasured.symm)]
  obtain ⟨hstop, hlater⟩ := retainLoop_spec retainTokens pricedNodes 0
  simp only [zero_add] at hstop hlater
  dsimp only
  cases hkeep : retainLoop retainTokens pricedNodes.reverse 0 with
  | zero =>
    rw [hkeep] at hlater
    rw [if_pos rfl]
    have hnone : ∀ k, 0 < k → k < pricedNodes.length →
        ¬ retainTokens ≤ price (pricedNodes.drop k) := hlater
    refine ⟨fun _ k hk hpos ↦ absurd hk.1.retained (hnone k hpos hk.1.lt), fun _ _ ↦ rfl,
      ?_, fun _ ↦ rfl, rfl, fun _ _ h ↦ absurd (Except.ok.inj h) (by simp)⟩
    rintro result - ⟨k, hpos, hlt, hle⟩
    exact absurd hle (hnone k hpos hlt)
  | succ k =>
    rw [hkeep] at hstop hlater
    obtain ⟨hlt, hprice⟩ := hstop.resolve_left (Nat.succ_ne_zero k)
    rw [if_neg (Nat.succ_ne_zero k)]
    have hin : k + 1 < st.surface.nodes.length := hlength ▸ hlt
    have htouched : ∃ k, 0 < k ∧ k < pricedNodes.length ∧
        retainTokens ≤ price (pricedNodes.drop k) := ⟨k + 1, Nat.succ_pos k, hlt, hprice⟩
    obtain ⟨hsynced', hview⟩ :=
      balancedLoop_state hsynced (st.surface.nodes.take (k + 1 + 1)).reverse
    have hsurface := congrArg SessionView.surface hview
    have hevents := congrArg SessionView.events hview
    cases horphan : orphan (typed st.events) st.surface.nodes with
    | some result =>
      have hloop := balancedLoop_eq_error hsynced horphan hin
      cases hcut : balancedLoop st (st.surface.nodes.take (k + 1 + 1)).reverse with
      | mk answer st' =>
        rw [hcut] at hloop hview
        obtain rfl : answer = _ := hloop
        refine ⟨fun h ↦ absurd (horphan.symm.trans h) (by simp),
          fun h ↦ absurd (horphan.symm.trans h) (by simp), fun result' hresult _ ↦ ?_,
          absurd htouched, hview, fun _ _ h ↦ absurd h (by simp)⟩
        obtain rfl := Option.some.inj (horphan.symm.trans hresult)
        rfl
    | none =>
      obtain ⟨m, hloop, hle, hbalanced, hnone⟩ := balancedLoop_eq_ok hsynced horphan hin
      cases hcut : balancedLoop st (st.surface.nodes.take (k + 1 + 1)).reverse with
      | mk answer st' =>
        rw [hcut] at hloop hview hsynced' hsurface hevents
        obtain rfl : answer = _ := hloop
        -- The cut that is found is the last one there is.
        have hcuts : Cuts st pricedNodes retainTokens m :=
          ⟨by omega, hprice.trans (price_drop_le htokens hle), hbalanced⟩
        have hlast : ∀ j, Cuts st pricedNodes retainTokens j → j ≤ m := by
          intro j hj
          by_contra hgt
          rw [not_le] at hgt
          by_cases hjk : j ≤ k + 1
          · exact hnone j hgt hjk hj.balanced
          · exact hlater j (not_le.mp hjk) hj.lt hj.retained
        cases m with
        | zero =>
          refine ⟨fun _ j hj hpos ↦ absurd (hlast j hj.1) (by omega), fun _ _ ↦ rfl,
            fun _ h ↦ absurd (horphan.symm.trans h) (by simp), absurd htouched, hview,
            fun _ _ h ↦ absurd (Except.ok.inj h) (by simp)⟩
        | succ m =>
          have hhead : st.surface.nodes[0]? = some (st.surface.nodes.getD 0 0) := by
            rw [List.getD_eq_getElem?_getD, List.getElem?_eq_getElem (by omega), Option.getD_some]
          have htail : st.surface.nodes[m]? = some (st.surface.nodes.getD m 0) := by
            rw [List.getD_eq_getElem?_getD, List.getElem?_eq_getElem (by omega), Option.getD_some]
          refine ⟨fun _ j hj hpos ↦ ?_, fun _ h ↦ absurd (h _ hcuts) (Nat.succ_ne_zero m),
            fun _ h ↦ absurd (horphan.symm.trans h) (by simp), absurd htouched, hview,
            fun start stop h ↦ ?_⟩
          · obtain rfl : j = m + 1 := le_antisymm (hlast j hj.1) (hj.2 hcuts)
            exact ⟨_, _, hhead, htail, rfl⟩
          · obtain ⟨rfl, rfl⟩ := Prod.mk.inj (Option.some.inj (Except.ok.inj h))
            change st'.surface = st.surface at hsurface
            change typed st'.events = typed st.events at hevents
            refine ⟨m, ?_⟩
            dsimp only
            rw [← hsurface] at hhead htail ⊢
            have horphan' : orphan (typed st'.events) st'.surface.nodes = none := by
              rw [hsurface, hevents, horphan]
            have hbalanced' : BalancedAt st' (m + 1) := by
              rw [BalancedAt, hsurface, hevents]
              exact hbalanced
            exact validateSurfaceRegion_head hsynced' horphan' hhead htail hbalanced'

/-- A call and its result between two messages of the user. -/
def answeredCall : List PairingOp := [
  .append (prompted 0),
  .append (appended 1 (.assistantMessage 1 1 [.toolCall (js "c")]) rfl), .query,
  .append (resulted 2 (js "c")),
  .append (prompted 3)]

theorem selectCompactableRange_answeredCall :
    ExactSelection (.run answeredCall) [⟨0, 5⟩, ⟨1, 2⟩, ⟨2, 2⟩, ⟨3, 1⟩] 2
      (selectCompactableRange (.run answeredCall) [⟨0, 5⟩, ⟨1, 2⟩, ⟨2, 2⟩, ⟨3, 1⟩] (2 : ℕ)) :=
  selectCompactableRange_exact answeredCall _ 2 (by decide +kernel) (by simp)

/-- A result whose call was never requested, before two messages of the user. -/
def orphanedResult : List PairingOp := [
  .append (resulted 0 (js "c")),
  .append (prompted 1),
  .append (prompted 2)]

/-- On a surface that the session takes, the selection fails instead of giving a range or none. -/
theorem selectCompactableRange_orphanedResult :
    (PairingState.run orphanedResult).surface.nodes = [0, 1, 2] ∧
      (selectCompactableRange (.run orphanedResult) [⟨0, 1⟩, ⟨1, 1⟩, ⟨2, 1⟩] (1 : ℕ)).1
        = .error (.pairing (.orphanResult 0)) := by
  constructor <;> decide +kernel

end XxAgent.Compaction
