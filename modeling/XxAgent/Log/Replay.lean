import Mathlib.Data.List.Induction

/-!
# Replaying a log

A state folded over an append-only log, where every entry is first planned and then committed.
Planning reads the state, the entries before and the entry, and may refuse; committing cannot fail.
A replay of the whole log and a replay that is continued after every entry are the same, which is
what `replay_concat` says; an incremental view is compared with `replay` through it alone.
-/

namespace Replay

/-! ## Fallible steps -/

section Fallible

variable {α β γ χ : Type*}

theorem bind_eq_ok {x : Except χ α} {f : α → Except χ β} {b : β} :
    x.bind f = .ok b ↔ ∃ a, x = .ok a ∧ f a = .ok b := by
  rcases x with e | a
  · exact ⟨nofun, nofun⟩
  · constructor
    · exact fun h ↦ ⟨a, rfl, h⟩
    · rintro ⟨c, hc, h⟩
      rwa [← Except.ok.inj hc] at h

theorem map_eq_ok {x : Except χ α} {f : α → β} {b : β} :
    x.map f = .ok b ↔ ∃ a, x = .ok a ∧ f a = b := by
  rcases x with e | a
  · exact ⟨nofun, nofun⟩
  · constructor
    · exact fun h ↦ ⟨a, rfl, Except.ok.inj h⟩
    · rintro ⟨c, hc, h⟩
      rw [← h, ← Except.ok.inj hc]
      rfl

theorem bind_assoc (x : Except χ α) (f : α → Except χ β) (g : β → Except χ γ) :
    (x.bind f).bind g = x.bind fun a ↦ (f a).bind g := by
  rcases x with e | a
  · rfl
  · rfl

end Fallible

/-! ## Replay -/

variable {σ ε π χ : Type*} (plan : σ → List ε → ε → Except χ π) (commit : σ → π → σ)

/-- Take one entry behind `log`. -/
def take (s : σ) (log : List ε) (e : ε) : Except χ σ := (plan s log e).map (commit s)

/-- Replay entries behind `log`. -/
def replayFrom : σ → List ε → List ε → Except χ σ
  | s, _, [] => .ok s
  | s, log, e :: es => (take plan commit s log e).bind fun t ↦ replayFrom t (log ++ [e]) es

variable (init : σ)

/-- Replay a whole log. -/
def replay (log : List ε) : Except χ σ := replayFrom plan commit init [] log

@[simp] theorem replay_nil : replay plan commit init [] = .ok init := rfl

theorem replayFrom_append (s : σ) (log es fs : List ε) :
    replayFrom plan commit s log (es ++ fs) = (replayFrom plan commit s log es).bind
      fun t ↦ replayFrom plan commit t (log ++ es) fs := by
  induction es generalizing s log with
  | nil =>
    rw [List.append_nil]
    rfl
  | cons e es ih =>
    rw [List.cons_append, replayFrom, replayFrom, bind_assoc]
    congr 1
    funext t
    rw [ih, List.append_assoc, List.singleton_append]

/-- **Replay is incremental.** -/
theorem replay_concat (log : List ε) (e : ε) :
    replay plan commit init (log ++ [e])
      = (replay plan commit init log).bind fun s ↦ take plan commit s log e := by
  rw [replay, replayFrom_append]
  congr 1
  funext t
  rw [replayFrom, List.nil_append]
  rcases take plan commit t log e with x | u
  · rfl
  · rfl

variable {plan commit init}

/-- A log that is accepted stays accepted when an entry is admitted. -/
theorem replay_concat_of_ok {log : List ε} {s : σ} (h : replay plan commit init log = .ok s)
    (e : ε) : replay plan commit init (log ++ [e]) = take plan commit s log e := by
  rw [replay_concat, h]
  rfl

/-- A log is refused at one of its entries. -/
theorem exists_of_replay_eq_error {log : List ε} {x : χ}
    (h : replay plan commit init log = .error x) : ∃ before e rest s,
      log = before ++ e :: rest ∧ replay plan commit init before = .ok s ∧
        plan s before e = .error x := by
  induction log using List.reverseRecOn with
  | nil => cases h
  | append_singleton log last ih =>
    cases hlog : replay plan commit init log with
    | error y =>
      rw [replay_concat, hlog] at h
      obtain rfl : y = x := Except.error.inj h
      obtain ⟨before, e, rest, s, rfl, hs, he⟩ := ih hlog
      exact ⟨before, e, rest ++ [last], s, by simp, hs, he⟩
    | ok s =>
      rw [replay_concat_of_ok hlog, take] at h
      cases hp : plan s log last with
      | error y =>
        rw [hp] at h
        obtain rfl : y = x := Except.error.inj h
        exact ⟨log, last, [], s, rfl, hlog, hp⟩
      | ok p =>
        rw [hp] at h
        cases h

/-- What is accepted was accepted all along. -/
theorem exists_replay_of_append {log es : List ε} {t : σ}
    (h : replay plan commit init (log ++ es) = .ok t) :
    ∃ s, replay plan commit init log = .ok s := by
  rw [replay, replayFrom_append] at h
  obtain ⟨s, hs, -⟩ := bind_eq_ok.mp h
  exact ⟨s, hs⟩

/-- Induction on a replay: what holds of the empty log, and of a log with one more entry that was
planned behind it, holds of every log that is accepted. -/
theorem replay_induction (P : List ε → σ → Prop) (h0 : P [] init)
    (hstep : ∀ s log e p, replay plan commit init log = .ok s → P log s → plan s log e = .ok p →
      P (log ++ [e]) (commit s p)) {log : List ε} :
    ∀ {s : σ}, replay plan commit init log = .ok s → P log s := by
  induction log using List.reverseRecOn with
  | nil =>
    intro s h
    rw [← Except.ok.inj h]
    exact h0
  | append_singleton log e ih =>
    intro s h
    rw [replay_concat] at h
    obtain ⟨t, ht, hadmit⟩ := bind_eq_ok.mp h
    obtain ⟨p, hp, rfl⟩ := map_eq_ok.mp hadmit
    exact hstep t log e p ht (ih ht) hp

/-- What planning preserves holds after every replay. -/
theorem replay_invariant (I : ℕ → σ → Prop) (h0 : I 0 init)
    (hstep : ∀ s log e p, I log.length s → plan s log e = .ok p →
      I (log.length + 1) (commit s p)) {log : List ε} {s : σ}
    (h : replay plan commit init log = .ok s) : I log.length s := by
  refine replay_induction (fun log s ↦ I log.length s) h0 (fun s log e p _ hs hp ↦ ?_) h
  rw [List.length_append, List.length_singleton]
  exact hstep s log e p hs hp

end Replay
