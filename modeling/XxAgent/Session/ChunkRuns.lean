import XxAgent.Session.ChunkRows

/-!
# The runs of a batch

`packChunkRuns` without its loop: the batch is split wherever two neighbours do not join, and each
part is encoded on its own. The loop keeps a current run; `Packer.Good` says which runs it can be
holding.
-/

namespace XxAgent

open Ecma

/-- Two neighbours belong to one run. -/
def joins (prev next : SessionEvent) : Bool :=
  match classify prev, classify next with
  | some k, some l => decide (k = l) && continues prev next k
  | _, _ => false

/-- The records of one part: a row for a run that is long enough, else the events as they are. -/
def packRun (part : List SessionEvent) : List Json :=
  match part.head?.bind classify with
  | some kind =>
    if part.length ≥ MIN_RUN then [buildRow kind part] else part.map SessionEvent.json
  | none => part.map SessionEvent.json

theorem joins_eq_true_iff {prev next : SessionEvent} : joins prev next = true ↔
    ∃ k, classify prev = some k ∧ classify next = some k ∧ continues prev next k = true := by
  rw [joins]
  cases hp : classify prev with
  | none => simp
  | some k =>
    cases hn : classify next with
    | none => simp
    | some l =>
      rw [Bool.and_eq_true, decide_eq_true_iff]
      constructor
      · rintro ⟨rfl, h⟩
        exact ⟨k, rfl, rfl, h⟩
      · rintro ⟨m, hm, hm', h⟩
        obtain rfl := Option.some.inj hm
        obtain rfl := Option.some.inj hm'
        exact ⟨rfl, h⟩

/-- An event that is no delta joins nothing. -/
theorem joins_of_classify_eq_none {prev next : SessionEvent}
    (h : classify prev = none ∨ classify next = none) : joins prev next = false := by
  rw [← Bool.not_eq_true, joins_eq_true_iff]
  rintro ⟨k, hp, hn, -⟩
  rcases h with h | h
  · rw [hp] at h
    exact absurd h (by simp)
  · rw [hn] at h
    exact absurd h (by simp)

/-- Along a chain of joining events the kind does not change. -/
theorem classify_of_isChain {kind : DeltaKind} {first : SessionEvent} {rest : List SessionEvent}
    (h : (first :: rest).IsChain fun a b ↦ joins a b = true) (hk : classify first = some kind) :
    ∀ e ∈ first :: rest, classify e = some kind := by
  induction rest generalizing first with
  | nil =>
    intro e he
    rwa [List.mem_singleton.mp he]
  | cons second rest ih =>
    rw [List.isChain_cons_cons] at h
    obtain ⟨k, hk1, hk2, -⟩ := joins_eq_true_iff.mp h.1
    have hsecond : classify second = some kind := by
      rw [hk2, ← hk1, hk]
    intro e he
    rcases List.mem_cons.mp he with rfl | he
    · exact hk
    · exact ih h.2 hsecond e he

namespace Packer

/-- The runs the loop can be holding: none, or events of one kind that join one after another. -/
def Good (p : Packer) : Prop :=
  match p.kind with
  | none => p.run = []
  | some kind => p.run ≠ [] ∧ (∀ e ∈ p.run, classify e = some kind) ∧
      p.run.IsChain fun a b ↦ joins a b = true

theorem Good.of_kind_none {p : Packer} (h : p.Good) (hk : p.kind = none) : p.run = [] := by
  rw [Good, hk] at h
  exact h

/-- Ending a run writes what the part is encoded as. -/
theorem Good.flush_out {p : Packer} (h : p.Good) :
    p.flush.out = p.out ++ (p.run.splitBy joins).flatMap packRun := by
  cases hk : p.kind with
  | none =>
    rw [flush, hk, h.of_kind_none hk]
    rfl
  | some kind =>
    rw [Good, hk] at h
    obtain ⟨hne, hkind, hchain⟩ := h
    obtain ⟨first, rest, hrun⟩ := List.exists_cons_of_ne_nil hne
    have hhead : p.run.head?.bind classify = some kind := by
      rw [hrun, List.head?_cons, Option.bind_some]
      exact hkind first (by rw [hrun]; exact List.mem_cons_self)
    rw [List.splitBy_of_isChain hne hchain, List.flatMap_singleton, packRun, hhead, flush, hk]
    dsimp only
    split_ifs <;> rfl

theorem good_start : start.Good := rfl

theorem good_nil (out : List Json) : (⟨out, none, []⟩ : Packer).Good := rfl

theorem good_singleton {event : SessionEvent} {kind : DeltaKind} (h : classify event = some kind)
    (out : List Json) : (⟨out, some kind, [event]⟩ : Packer).Good :=
  ⟨List.cons_ne_nil _ _, by simpa using h, List.isChain_singleton _⟩

/-- The part that a step leaves behind is complete: what the run ended in does not join the next
event. -/
private theorem splitBy_run {p : Packer} {event : SessionEvent}
    (h : ∀ last ∈ p.run.getLast?, joins last event = false) (events : List SessionEvent) :
    (p.run ++ event :: events).splitBy joins
      = p.run.splitBy joins ++ (event :: events).splitBy joins :=
  List.splitBy_append_cons events h

private theorem splitBy_cons_none {event : SessionEvent} (h : classify event = none)
    (events : List SessionEvent) :
    (event :: events).splitBy joins = [event] :: events.splitBy joins := by
  have hsplit : ([event] ++ events).splitBy joins
      = [event].splitBy joins ++ events.splitBy joins := by
    refine List.splitBy_append fun x hx y _ ↦ ?_
    rw [List.getLast?_singleton, Option.mem_some_iff] at hx
    rw [← hx]
    exact joins_of_classify_eq_none (Or.inl h)
  exact hsplit

/-- **The loop**: from any run it can be holding, what it has written at the end is what the parts
of the run and the remaining events are encoded as. -/
theorem Good.foldl_flush_out (events : List SessionEvent) : ∀ {p : Packer}, p.Good →
    (events.foldl step p).flush.out
      = p.out ++ ((p.run ++ events).splitBy joins).flatMap packRun := by
  induction events with
  | nil =>
    intro p h
    rw [List.foldl_nil, List.append_nil, h.flush_out]
  | cons event events ih =>
    intro p h
    rw [List.foldl_cons]
    -- A new run starts with `event`; `hbreak` is why the old one ends there.
    have hnew : ∀ {k : DeltaKind}, classify event = some k →
        (∀ last ∈ p.run.getLast?, joins last event = false) →
        (events.foldl step ⟨p.flush.out, some k, [event]⟩).flush.out
          = p.out ++ ((p.run ++ event :: events).splitBy joins).flatMap packRun := by
      intro k hk hbreak
      rw [ih (good_singleton hk _), h.flush_out, splitBy_run hbreak, List.flatMap_append,
        List.append_assoc, List.singleton_append]
    cases hk : classify event with
    | none =>
      have hbreak : ∀ last ∈ p.run.getLast?, joins last event = false :=
        fun last _ ↦ joins_of_classify_eq_none (Or.inr hk)
      have hpart : packRun [event] = [event.json] := by
        rw [packRun, List.head?_cons, Option.bind_some, hk]
        rfl
      rw [step, hk]
      dsimp only
      rw [ih (good_nil _), h.flush_out, splitBy_run hbreak, splitBy_cons_none hk,
        List.flatMap_append, List.flatMap_cons, hpart, List.nil_append, List.append_assoc,
        List.append_assoc]
    | some k =>
      rw [step, hk]
      dsimp only
      cases hlast : p.run.getLast? with
      | none =>
        exact hnew hk fun last hl ↦ absurd (hlast ▸ hl) (by simp)
      | some last =>
        dsimp only
        have hmem : last ∈ p.run := List.mem_of_getLast? hlast
        cases hpk : p.kind with
        | none =>
          rw [h.of_kind_none hpk] at hmem
          exact absurd hmem (by simp)
        | some l =>
          have hgood := h
          rw [Good, hpk] at hgood
          obtain ⟨hne, hkind, hchain⟩ := hgood
          have hclast : classify last = some l := hkind last hmem
          by_cases hc : some k = some l ∧ continues last event k = true
          · obtain rfl : k = l := Option.some.inj hc.1
            have hjoin : joins last event = true :=
              joins_eq_true_iff.mpr ⟨k, hclast, hk, hc.2⟩
            have hgood' : (⟨p.out, some k, p.run ++ [event]⟩ : Packer).Good := by
              refine ⟨by simp, fun e he ↦ ?_, ?_⟩
              · rcases List.mem_append.mp he with he | he
                · exact hkind e he
                · rw [List.mem_singleton.mp he]
                  exact hk
              · refine List.isChain_append.mpr ⟨hchain, List.isChain_singleton _, ?_⟩
                intro x hx y hy
                rw [hlast, Option.mem_some_iff] at hx
                rw [List.head?_cons, Option.mem_some_iff] at hy
                rw [← hx, ← hy]
                exact hjoin
            rw [if_pos hc, ih hgood', List.append_assoc, List.singleton_append]
          · rw [if_neg hc]
            refine hnew hk fun x hx ↦ ?_
            rw [hlast, Option.mem_some_iff] at hx
            rw [← hx, ← Bool.not_eq_true, joins_eq_true_iff]
            rintro ⟨m, hm1, hm2, hm⟩
            obtain rfl : l = m := Option.some.inj (hclast.symm.trans hm1)
            obtain rfl : k = l := Option.some.inj (hk.symm.trans hm2)
            exact hc ⟨rfl, hm⟩

end Packer

/-- **Packing is part by part.** -/
theorem packChunkRuns_eq (events : List SessionEvent) :
    packChunkRuns events = (events.splitBy joins).flatMap packRun := by
  rw [packChunkRuns, Packer.good_start.foldl_flush_out]
  rfl

end XxAgent
