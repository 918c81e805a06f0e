/-
Bowst.Core.Units — prices, quantities and book sides (`bowst-core/src/units.rs`).

`Price` and `Qty` are `i64` newtypes counted in whole increments. The books
only compare them, so the model keeps the integer and drops the width: every
`i64` history is an `Int` history. Saturating `u64` counters are `Nat` with an
explicit bound.
-/
import Mathlib.Algebra.Group.Nat.Defs
import Mathlib.Order.Compare
import Mathlib.Order.Lattice

namespace Bowst.Core

/-- `u64::MAX`. -/
def u64Max : Nat := 2 ^ 64 - 1

/-- `u64::saturating_add` (and `usize::saturating_add` on a 64-bit target). -/
def saturatingAdd (a b : Nat) : Nat := min (a + b) u64Max

theorem saturatingAdd_of_le {a b : Nat} (h : a + b ≤ u64Max) : saturatingAdd a b = a + b :=
  Nat.min_eq_left h

/-- A price as a whole number of the instrument's tick size. -/
abbrev Price := Int

/-- A quantity as a whole number of the instrument's lot step. -/
abbrev Qty := Int

/-- Order or book side. -/
inductive Side where
  | buy
  | sell
  deriving DecidableEq, Repr

namespace Side

/-- Whether price `a` is strictly more aggressive than `b` on this side: higher
for buys, lower for sells. -/
def isMoreAggressive : Side → Price → Price → Bool
  | .buy, a, b => decide (a > b)
  | .sell, a, b => decide (a < b)

/-- The side's `Debug` text. -/
def toText : Side → String
  | .buy => "Buy"
  | .sell => "Sell"

/-- How aggressive a price is on this side, as an integer: a better price has a
larger key. Both sides' orders become the order of `Int` through it. -/
def key : Side → Price → Int
  | .buy, p => p
  | .sell, p => -p

theorem isMoreAggressive_iff (s : Side) (a b : Price) :
    s.isMoreAggressive a b = true ↔ s.key b < s.key a := by
  cases s <;> simp [isMoreAggressive, key]

theorem isMoreAggressive_eq_false_iff (s : Side) (a b : Price) :
    s.isMoreAggressive a b = false ↔ s.key a ≤ s.key b := by
  cases s <;> simp [isMoreAggressive, key]

theorem key_inj {s : Side} {a b : Price} : s.key a = s.key b ↔ a = b := by
  cases s <;> simp [key]

end Side

end Bowst.Core
