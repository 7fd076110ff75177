import Mathlib.Data.List.Basic

/-!
# Transactions

What a transaction raises, and the locks it holds while it is open.
-/

/-!
## Transactions that raise

A transaction either raises an error, which rolls it back, or ends with a result. Its checks come one
after the other, so what is known of a result is known check by check.
-/

namespace Sql

variable {ε α β : Type}

def raiseIf (p : Prop) [Decidable p] (code : ε) : Except ε Unit :=
  if p then .error code else .ok ()

/-- What is selected, or an error. -/
def orRaise (code : ε) : Option α → Except ε α
  | none => .error code
  | some a => .ok a

theorem bind_eq_ok {x : Except ε α} {f : α → Except ε β} {b : β} :
    x >>= f = .ok b ↔ ∃ a, x = .ok a ∧ f a = .ok b := by
  cases x with
  | error e => simp [bind, Except.bind]
  | ok a => simp [bind, Except.bind]

theorem map_eq_ok {x : Except ε α} {f : α → β} {b : β} :
    f <$> x = .ok b ↔ ∃ a, x = .ok a ∧ f a = b := by
  cases x with
  | error e => simp [Functor.map, Except.map]
  | ok a => simp [Functor.map, Except.map]

theorem raiseIf_eq_ok {p : Prop} [Decidable p] {code : ε} : raiseIf p code = .ok () ↔ ¬ p := by
  rw [raiseIf]
  split_ifs with h
  · simp [h]
  · simp [h]

variable {τ L : Type*} (holds : τ → List L)

/-- No transaction holds the lock. -/
def free [DecidableEq L] (transactions : List τ) (lock : L) : Bool :=
  transactions.all fun transaction ↦ decide (lock ∉ holds transaction)

/-- No two transactions hold one lock. -/
def Exclusive (transactions : List τ) : Prop :=
  ∀ ⦃i j : ℕ⦄ ⦃transaction other : τ⦄, transactions[i]? = some transaction →
    transactions[j]? = some other → i ≠ j → List.Disjoint (holds transaction) (holds other)

variable {holds} {transactions : List τ} {transaction transaction' : τ} {i : ℕ}

theorem notMem_of_free [DecidableEq L] {lock : L} (h : free holds transactions lock = true)
    (htransaction : transaction ∈ transactions) : lock ∉ holds transaction :=
  of_decide_eq_true (List.all_eq_true.mp h transaction htransaction)

theorem exclusive_nil : Exclusive holds [] := by
  intro i j transaction other htransaction
  simp at htransaction

/-- A transaction that begins holds nothing. -/
theorem Exclusive.concat (h : Exclusive holds transactions) (hnew : holds transaction = []) :
    Exclusive holds (transactions ++ [transaction]) := by
  have hlast {j : ℕ} {other : τ} (hother : (transactions ++ [transaction])[j]? = some other) :
      transactions[j]? = some other ∨ other = transaction := by
    rw [List.getElem?_append] at hother
    split_ifs at hother with hlt
    · exact Or.inl hother
    · exact Or.inr (by simpa using List.mem_of_getElem? hother)
  intro i j first second hfirst hsecond hij
  rcases hlast hfirst with hold | rfl
  · rcases hlast hsecond with hold' | rfl
    · exact h hold hold' hij
    · rw [hnew]
      exact List.disjoint_nil_right _
  · rw [hnew]
    exact List.disjoint_nil_left _

/-- A step of one transaction takes only what was free. -/
theorem Exclusive.set (h : Exclusive holds transactions) (hi : transactions[i]? = some transaction)
    (htaken : ∀ lock ∈ holds transaction', lock ∈ holds transaction ∨
      ∀ other ∈ transactions, lock ∉ holds other) :
    Exclusive holds (transactions.set i transaction') := by
  have hdisjoint {j : ℕ} {other : τ} (hj : transactions[j]? = some other) (hij : i ≠ j) :
      List.Disjoint (holds transaction') (holds other) := by
    intro lock hlock hother
    rcases htaken lock hlock with hheld | hfree
    · exact h hi hj hij hheld hother
    · exact hfree other (List.mem_of_getElem? hj) hother
  intro j k first second hfirst hsecond hjk
  rw [List.getElem?_set] at hfirst hsecond
  split_ifs at hfirst hsecond with hij hlt hik
  · exact absurd (hij.symm.trans hik) hjk
  · rw [Option.some.injEq] at hfirst
    subst hfirst
    exact hdisjoint hsecond hik
  · rw [Option.some.injEq] at hsecond
    subst hsecond
    exact fun lock hlock hother ↦ hdisjoint hfirst hij hother hlock
  · exact h hfirst hsecond hjk

end Sql
