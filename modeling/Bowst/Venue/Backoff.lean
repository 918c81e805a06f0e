/-
Bowst.Venue.Backoff — exponential reconnect backoff with jitter
(`bowst-venue/src/backoff.rs`).

A duration is its number of nanoseconds, at most `Duration::MAX`. Randomness is an
argument, as in the source.
-/
import Bowst.Venue.RateLimit

namespace Bowst.Venue

open Bowst.Core

/-- The largest `u32`. -/
def u32Max : Nat := 2 ^ 32 - 1

/-- Exponential backoff state. -/
structure Backoff where
  initial : Nat
  max : Nat
  attempt : Nat
  ordered : initial ≤ max
  fits : max ≤ durationMax
  deriving Repr

namespace Backoff

/-- Starts at `initial`, doubling per attempt up to `max`. -/
def new (initial max : Nat) (hinitial : initial ≤ durationMax) (hmax : max ≤ durationMax) :
    Backoff where
  initial
  max := Nat.max max initial
  attempt := 0
  ordered := Nat.le_max_right ..
  fits := Nat.max_le.mpr ⟨hmax, hinitial⟩

/-- `1_u32.checked_shl(attempt).unwrap_or(u32::MAX)`. -/
def factor (attempt : Nat) : Nat := if attempt < 32 then 1 <<< attempt else u32Max

/-- The current step. -/
def step (b : Backoff) : Nat :=
  let product := b.initial * factor b.attempt
  min (if product ≤ durationMax then product else b.max) b.max

/-- Delay before the next attempt, and the state behind it. -/
def nextDelay (b : Backoff) (random : UInt32) : Nat × Backoff :=
  let half := b.step / 2
  let spread := min half u64Max
  let jitter := saturatingMul128 spread random.toNat / u32Max
  (min (half + min jitter u64Max) durationMax, { b with attempt := min (b.attempt + 1) u32Max })

/-- Resets to the initial delay. -/
def reset (b : Backoff) : Backoff := { b with attempt := 0 }

/-- One call. -/
inductive Call where
  | nextDelay (random : UInt32)
  | reset
  deriving DecidableEq, Repr

/-- The delays of calls. -/
def delays (b : Backoff) : List Call → List Nat
  | [] => []
  | .nextDelay random :: calls => (b.nextDelay random).1 :: (b.nextDelay random).2.delays calls
  | .reset :: calls => b.reset.delays calls

end Backoff

end Bowst.Venue
