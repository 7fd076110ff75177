import Mathlib.Tactic.Common

/-!
# Computations that can fail

A computation over a state that is run under a schedule of injected failures. An error keeps the
state in which it was raised, so what a failed computation leaves behind can be asked for.

Two kinds of facts are composed along the syntax of a computation: what every run of it keeps,
whether it fails or not, and which runs of it succeed.
-/

namespace Files

/-- A computation of an `α` over states `σ`, with errors `ε`, under a schedule `φ`. -/
def Faulty (φ ε σ α : Type*) := φ → σ → Except ε α × σ

namespace Faulty

universe u

variable {φ ε σ : Type*} {α β : Type u}

/-- A computation that does nothing. -/
protected def pure (a : α) : Faulty φ ε σ α := fun _ s ↦ (.ok a, s)

/-- One computation after another. -/
protected def bind (x : Faulty φ ε σ α) (f : α → Faulty φ ε σ β) : Faulty φ ε σ β := fun faults s ↦
  match x faults s with
  | (.error e, t) => (.error e, t)
  | (.ok a, t) => f a faults t

instance : Monad (Faulty φ ε σ) where
  pure := Faulty.pure
  bind := Faulty.bind

/-- The state. -/
protected def get : Faulty φ ε σ σ := fun _ s ↦ (.ok s, s)

/-- Change the state. -/
protected def modify (f : σ → σ) : Faulty φ ε σ PUnit := fun _ s ↦ (.ok ⟨⟩, f s)

/-- `throw e`. -/
def throw (e : ε) : Faulty φ ε σ α := fun _ s ↦ (.error e, s)

/-- A result that is known already. -/
def ofExcept (r : Except ε α) : Faulty φ ε σ α := fun _ s ↦ (r, s)

/-- `try { body } catch (e) { handler }`. -/
def tryCatch (body : Faulty φ ε σ α) (handler : ε → Faulty φ ε σ α) : Faulty φ ε σ α :=
  fun faults s ↦
    match body faults s with
    | (.error e, t) => handler e faults t
    | (.ok a, t) => (.ok a, t)

/-- `try { body } finally { last }`: an error of `last` replaces what the body came to. -/
def tryFinally (body : Faulty φ ε σ α) (last : Faulty φ ε σ PUnit) : Faulty φ ε σ α :=
  fun faults s ↦
    match body faults s with
    | (r, t) =>
      match last faults t with
      | (.error e, u) => (.error e, u)
      | (.ok (), u) => (r, u)

variable {faults : φ} {s t : σ} {x : Faulty φ ε σ α} {f : α → Faulty φ ε σ β}

theorem run_bind_ok {a : α} (h : x faults s = (.ok a, t)) : (x >>= f) faults s = f a faults t := by
  show Faulty.bind x f faults s = _
  rw [Faulty.bind, h]

theorem run_bind_error {e : ε} (h : x faults s = (.error e, t)) :
    (x >>= f) faults s = (.error e, t) := by
  show Faulty.bind x f faults s = _
  rw [Faulty.bind, h]

theorem run_get_bind {σ : Type u} (f : σ → Faulty φ ε σ β) (faults : φ) (s : σ) :
    ((Faulty.get : Faulty φ ε σ σ) >>= f) faults s = f s faults s := rfl

theorem run_modify_bind (g : σ → σ) (f : PUnit → Faulty φ ε σ β) :
    ((Faulty.modify g : Faulty φ ε σ PUnit) >>= f) faults s = f ⟨⟩ faults (g s) := rfl

/-! ## What every run keeps -/

variable {R : σ → σ → Prop}

/-- Every run, failed or not, ends in a state related to the one it started in. -/
def Keeps (R : σ → σ → Prop) (x : Faulty φ ε σ α) : Prop := ∀ faults s, R s (x faults s).2

theorem Keeps.of_same [Std.Refl R] (h : ∀ faults s, (x faults s).2 = s) : Keeps R x := by
  intro faults s
  rw [h faults s]
  exact Std.Refl.refl s

theorem keeps_pure [Std.Refl R] (a : α) : Keeps R (pure a : Faulty φ ε σ α) :=
  .of_same fun _ _ ↦ rfl

theorem keeps_throw [Std.Refl R] (e : ε) : Keeps R (throw e : Faulty φ ε σ α) :=
  .of_same fun _ _ ↦ rfl

theorem Keeps.bind [IsTrans σ R] (hx : Keeps R x) (hf : ∀ a, Keeps R (f a)) :
    Keeps R (x >>= f) := by
  intro faults s
  have hfirst := hx faults s
  cases h : x faults s with
  | mk r t =>
    rw [h] at hfirst
    cases r with
    | error e => exact run_bind_error h ▸ hfirst
    | ok a =>
      rw [run_bind_ok h]
      exact IsTrans.trans _ _ _ hfirst (hf a faults t)

theorem Keeps.tryFinally [IsTrans σ R] {last : Faulty φ ε σ PUnit} (hx : Keeps R x)
    (hl : Keeps R last) : Keeps R (x.tryFinally last) := by
  intro faults s
  have hfirst := hx faults s
  rw [Faulty.tryFinally]
  cases h : x faults s with
  | mk r t =>
    rw [h] at hfirst
    have hlast := hl faults t
    dsimp only
    cases h' : last faults t with
    | mk r' u =>
      rw [h'] at hlast
      cases r' <;> exact IsTrans.trans _ _ _ hfirst hlast

/-! ## Which runs succeed -/

variable {ι : Type*} {fails : φ → ι → Prop} {calls more : List ι} {a : α} {b : β} {u : σ}

/-- From `s` the computation makes these calls, and comes to `a` in `t` unless one of them fails. -/
def Makes (fails : φ → ι → Prop) (calls : List ι) (x : Faulty φ ε σ α) (s : σ) (a : α) (t : σ) :
    Prop :=
  ∀ faults, ((∀ c ∈ calls, ¬ fails faults c) → x faults s = (.ok a, t)) ∧
    ((∃ c ∈ calls, fails faults c) → ∃ e v, x faults s = (.error e, v))

theorem Makes.of_run (h : ∀ faults, x faults s = (.ok a, t)) : Makes fails [] x s a t :=
  fun faults ↦ ⟨fun _ ↦ h faults, fun ⟨_, hc, _⟩ ↦ absurd hc List.not_mem_nil⟩

theorem makes_pure (a : α) : Makes fails [] (pure a : Faulty φ ε σ α) s a s :=
  .of_run fun _ ↦ rfl

theorem Makes.bind (hx : Makes fails calls x s a t) (hf : Makes fails more (f a) t b u) :
    Makes fails (calls ++ more) (x >>= f) s b u := by
  intro faults
  constructor
  · intro hnone
    rw [run_bind_ok ((hx faults).1 fun c hc ↦ hnone c (List.mem_append_left _ hc))]
    exact (hf faults).1 fun c hc ↦ hnone c (List.mem_append_right _ hc)
  · rintro ⟨c, hc, hfail⟩
    by_cases hfirst : ∃ c ∈ calls, fails faults c
    · obtain ⟨e, v, h⟩ := (hx faults).2 hfirst
      exact ⟨e, v, run_bind_error h⟩
    · push Not at hfirst
      rw [run_bind_ok ((hx faults).1 hfirst)]
      rcases List.mem_append.mp hc with hc | hc
      · exact absurd hfail (hfirst c hc)
      · exact (hf faults).2 ⟨c, hc, hfail⟩

theorem Makes.tryFinally {last : Faulty φ ε σ PUnit} (hx : Makes fails calls x s a t)
    (hl : Makes fails more last t ⟨⟩ u) :
    Makes fails (calls ++ more) (x.tryFinally last) s a u := by
  intro faults
  constructor
  · intro hnone
    rw [Faulty.tryFinally, (hx faults).1 fun c hc ↦ hnone c (List.mem_append_left _ hc)]
    dsimp only
    rw [(hl faults).1 fun c hc ↦ hnone c (List.mem_append_right _ hc)]
  · rintro ⟨c, hc, hfail⟩
    rw [Faulty.tryFinally]
    by_cases hfirst : ∃ c ∈ calls, fails faults c
    · obtain ⟨e, v, h⟩ := (hx faults).2 hfirst
      rw [h]
      dsimp only
      rcases last faults v with ⟨_ | _, w⟩
      · exact ⟨_, w, rfl⟩
      · exact ⟨e, w, rfl⟩
    · push Not at hfirst
      rw [(hx faults).1 hfirst]
      dsimp only
      rcases List.mem_append.mp hc with hc | hc
      · exact absurd hfail (hfirst c hc)
      · obtain ⟨e, v, h⟩ := (hl faults).2 ⟨c, hc, hfail⟩
        exact ⟨e, v, by rw [h]⟩

end Faulty

end Files
