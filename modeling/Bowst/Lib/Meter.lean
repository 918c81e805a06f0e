/-
Bowst.Lib.Meter — spending from a balance that time refills.

A state machine is metered when every step pays for what it spends: out of the
balance it had and what the clock has earned since, and never beyond a full
balance. Both rules are about one step. What a whole run may spend between two
points of it follows by adding the steps up (`Meter.window_le`), whatever else
the steps do to the balance.
-/
import Mathlib.Algebra.Order.Ring.Nat
import Mathlib.Tactic.Linarith

namespace Bowst.Lib

variable {σ α : Type}

/-- The two rules of a metered state machine, for the states of an invariant
that its steps keep. -/
structure Meter (step : σ → α → σ) where
  spent : σ → α → Nat
  balance : σ → Nat
  clock : σ → Nat
  /-- What a unit of time earns. -/
  rate : Nat
  /-- The largest balance. -/
  full : Nat
  Inv : σ → Prop
  inv_step : ∀ {s} a, Inv s → Inv (step s a)
  clock_le : ∀ {s} a, Inv s → clock s ≤ clock (step s a)
  paid : ∀ {s} a, Inv s →
    spent s a + balance (step s a) ≤ balance s + rate * (clock (step s a) - clock s)
  capped : ∀ {s} a, Inv s → spent s a + balance (step s a) ≤ full

namespace Meter

variable {step : σ → α → σ} (m : Meter step)

/-- What a sequence of steps spends. -/
def spentAll (s : σ) : List α → Nat
  | [] => 0
  | a :: as => m.spent s a + spentAll (step s a) as

theorem inv_run : ∀ (as : List α) {s : σ}, m.Inv s → m.Inv (as.foldl step s)
  | [], _, h => h
  | a :: as, _, h => inv_run as (m.inv_step a h)

theorem clock_le_run : ∀ (as : List α) {s : σ}, m.Inv s → m.clock s ≤ m.clock (as.foldl step s)
  | [], _, _ => le_refl _
  | a :: as, _, h => le_trans (m.clock_le a h) (clock_le_run as (m.inv_step a h))

/-- A run pays like a step: the earnings of its steps add up. -/
theorem paid_run (as : List α) : ∀ {s : σ}, m.Inv s →
    m.spentAll s as + m.balance (as.foldl step s)
      ≤ m.balance s + m.rate * (m.clock (as.foldl step s) - m.clock s) := by
  induction as with
  | nil => intro s _; simp [spentAll]
  | cons a as ih =>
      intro s h
      have hstep := m.paid a h
      have hrest := ih (m.inv_step a h)
      have hclock := m.clock_le a h
      have hclock' := m.clock_le_run as (m.inv_step a h)
      have hsum : m.rate * (m.clock (step s a) - m.clock s)
          + m.rate * (m.clock (as.foldl step (step s a)) - m.clock (step s a))
            = m.rate * (m.clock (as.foldl step (step s a)) - m.clock s) := by
        rw [← Nat.mul_add]
        congr 1
        omega
      simp only [spentAll, List.foldl_cons]
      omega

/-- What is spent from one step to another: a full balance, and what is earned
from the time of the first to the time of the last. -/
theorem window_le (a : α) (as : List α) {s : σ} (h : m.Inv s) :
    m.spentAll s (a :: as)
      ≤ m.full + m.rate * (m.clock ((a :: as).foldl step s) - m.clock (step s a)) := by
  have hfirst := m.capped a h
  have hrest := m.paid_run as (m.inv_step a h)
  simp only [spentAll, List.foldl_cons]
  omega

end Meter

end Bowst.Lib
