import Mathlib.Data.List.Basic

/-!
# Readers that stop at the end of their input

A reader takes entries from an offset on. It is done with a value, it fails, or the input ends
inside what it reads. `Reads r x b` says that `x` is what `r` takes to make `b`, with anything
behind it, and that no proper prefix of `x` is enough; it goes through sequencing (`Reads.bind`), so
a format is read exactly once each of its fields is.
-/

/-- What a reader makes of its input: a value, the offset behind it and what is left there. -/
inductive Reader.Outcome (ε α β : Type*)
  | torn
  | failed (error : ε)
  | done (value : β) (offset : ℕ) (rest : List α)

/-- A reader is told the offset its input starts at. -/
def Reader (ε α β : Type*) := ℕ → List α → Reader.Outcome ε α β

namespace Reader

universe u

variable {ε α : Type*} {β γ : Type u}

/-- Go on with what a reader made, behind what it took. -/
protected def bind (r : Reader ε α β) (f : β → Reader ε α γ) : Reader ε α γ :=
  fun offset input ↦ match r offset input with
    | .torn => .torn
    | .failed e => .failed e
    | .done b offset rest => f b offset rest

instance : Monad (Reader ε α) where
  pure b := fun offset input ↦ .done b offset input
  bind := Reader.bind

/-- One entry. -/
def entry : Reader ε α α
  | _, [] => .torn
  | offset, a :: rest => .done a (offset + 1) rest

/-- The next `n` entries. -/
def take (n : ℕ) : Reader ε α (List α) := fun offset input ↦
  if input.length < n then .torn else .done (input.take n) (offset + n) (input.drop n)

/-- The next `n` entries, unread. -/
def skip (n : ℕ) : Reader ε α PUnit.{u + 1} := fun offset input ↦
  if input.length < n then .torn else .done ⟨⟩ (offset + n) (input.drop n)

/-- Fail unless a condition holds; the error is told the offset. -/
def require (c : Prop) [Decidable c] (error : ℕ → ε) : Reader ε α PUnit.{u + 1} :=
  fun offset input ↦
    if c then .done ⟨⟩ offset input else .failed (error offset)

/-! ## What a reader reads -/

/-- `x` is what the reader takes to make `b`. -/
structure Reads (r : Reader ε α β) (x : List α) (b : β) : Prop where
  whole : ∀ offset rest, r offset (x ++ rest) = .done b (offset + x.length) rest
  torn : ∀ offset, ∀ k < x.length, r offset (x.take k) = .torn

protected theorem Reads.pure (b : β) : Reads (pure b : Reader ε α β) [] b where
  whole _ _ := rfl
  torn _ _ hk := absurd hk (Nat.not_lt_zero _)

protected theorem Reads.entry (a : α) : Reads (entry : Reader ε α α) [a] a where
  whole _ _ := rfl
  torn _ k hk := by
    obtain rfl : k = 0 := Nat.lt_one_iff.mp hk
    rfl

protected theorem Reads.take {x : List α} {n : ℕ} (h : x.length = n) :
    Reads (take n : Reader ε α (List α)) x x where
  whole offset rest := by
    have hlength : ¬ (x ++ rest).length < n := by rw [List.length_append]; omega
    rw [take, if_neg hlength, ← h, List.take_left, List.drop_left]
  torn offset k hk := by
    have hlength : (x.take k).length < n := by rw [List.length_take]; omega
    rw [take, if_pos hlength]

protected theorem Reads.skip {x : List α} {n : ℕ} (h : x.length = n) :
    Reads (skip n : Reader ε α PUnit.{u + 1}) x ⟨⟩ where
  whole offset rest := by
    have hlength : ¬ (x ++ rest).length < n := by rw [List.length_append]; omega
    rw [skip, if_neg hlength, ← h, List.drop_left]
  torn offset k hk := by
    have hlength : (x.take k).length < n := by rw [List.length_take]; omega
    rw [skip, if_pos hlength]

protected theorem Reads.require {c : Prop} [Decidable c] (h : c) (error : ℕ → ε) :
    Reads (require c error : Reader ε α PUnit.{u + 1}) [] ⟨⟩ where
  whole _ _ := if_pos h
  torn _ _ hk := absurd hk (Nat.not_lt_zero _)

/-- **One field behind another.** A prefix of both ends inside the first, or is all of the first
and a prefix of the second. -/
protected theorem Reads.bind {r : Reader ε α β} {f : β → Reader ε α γ} {x y : List α} {b : β}
    {c : γ} (hr : Reads r x b) (hf : Reads (f b) y c) : Reads (r >>= f) (x ++ y) c where
  whole offset rest := by
    change Reader.bind r f offset (x ++ y ++ rest) = _
    rw [Reader.bind, List.append_assoc, hr.whole, List.length_append, ← Nat.add_assoc]
    exact hf.whole _ _
  torn offset k hk := by
    change Reader.bind r f offset ((x ++ y).take k) = _
    rw [Reader.bind]
    by_cases hx : k < x.length
    · rw [List.take_append_of_le_length (Nat.le_of_lt hx), hr.torn offset k hx]
    · have hy : k - x.length < y.length := by rw [List.length_append] at hk; omega
      rw [List.take_append, List.take_of_length_le (Nat.le_of_not_lt hx), hr.whole]
      exact hf.torn _ _ hy

protected theorem Reads.bind_pure {r : Reader ε α β} {x : List α} {b : β} (hr : Reads r x b)
    (f : β → γ) : Reads (r >>= fun b ↦ pure (f b)) x (f b) := by
  rw [← List.append_nil x]
  exact hr.bind (Reads.pure (f b))

/-! ## What a reader leaves -/

/-- A reader that is done took `n` entries or more. -/
def Takes (r : Reader ε α β) (n : ℕ) : Prop :=
  ∀ ⦃offset input b offset' rest⦄, r offset input = .done b offset' rest →
    rest.length + n ≤ input.length

theorem takes_pure (b : β) : Takes (pure b : Reader ε α β) 0 := by
  intro offset input b' offset' rest h
  cases h
  exact Nat.le_refl _

theorem takes_entry : Takes (entry : Reader ε α α) 1 := by
  intro offset input b offset' rest h
  cases input with
  | nil => cases h
  | cons a input =>
    cases h
    exact Nat.le_refl _

theorem takes_take (n : ℕ) : Takes (take n : Reader ε α (List α)) n := by
  intro offset input b offset' rest h
  rw [take] at h
  split_ifs at h with hlength
  cases h
  rw [List.length_drop]
  omega

theorem takes_skip (n : ℕ) : Takes (skip n : Reader ε α PUnit.{u + 1}) n := by
  intro offset input b offset' rest h
  rw [skip] at h
  split_ifs at h with hlength
  cases h
  rw [List.length_drop]
  omega

theorem takes_require (c : Prop) [Decidable c] (error : ℕ → ε) :
    Takes (require c error : Reader ε α PUnit.{u + 1}) 0 := by
  intro offset input b offset' rest h
  rw [require] at h
  split_ifs at h with hc
  cases h
  exact Nat.le_refl _

theorem Takes.bind {r : Reader ε α β} {f : β → Reader ε α γ} {m n : ℕ} (hr : Takes r m)
    (hf : ∀ b, Takes (f b) n) : Takes (r >>= f) (m + n) := by
  intro offset input c offset' rest h
  change Reader.bind r f offset input = _ at h
  rw [Reader.bind] at h
  split at h
  case h_1 => cases h
  case h_2 => cases h
  case h_3 b offset₁ rest₁ hdone =>
    have hfirst := hr hdone
    have hsecond := hf b h
    omega

theorem Takes.mono {r : Reader ε α β} {m n : ℕ} (h : Takes r n) (hle : m ≤ n) : Takes r m := by
  intro offset input b offset' rest hdone
  have := h hdone
  omega

end Reader
