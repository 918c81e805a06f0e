/-
Bowst.Venue.BackoffTheorems — every delay lies between half and all of its step.

The step is a function of the attempts since the last reset (`step_eq`), and the
attempts of a state are those counted over its calls, up to the largest `u32`, where
the step has long stopped to grow.
-/
import Mathlib.Data.List.Forall2
import Bowst.Venue.Backoff

namespace Bowst.Venue.Backoff

open Bowst.Core

/-- The step after `k` attempts: `initial`, doubled for each, and never above `max`. -/
def stepAt (initial max k : Nat) : Nat := min (initial * min (2 ^ k) u32Max) max

theorem factor_eq (k : Nat) : factor k = min (2 ^ k) u32Max := by
  unfold factor u32Max
  split_ifs with hk
  · have hpow : 2 ^ k ≤ 2 ^ 31 := Nat.pow_le_pow_right (by decide) (by omega)
    rw [Nat.one_shiftLeft]
    omega
  · have hpow : 2 ^ 32 ≤ 2 ^ k := Nat.pow_le_pow_right (by decide) (by omega)
    omega

/-- The largest `u32` counts for every larger number. -/
theorem factor_min (k : Nat) : factor (min k u32Max) = factor k := by
  unfold factor u32Max
  split_ifs <;> first | rfl | omega | (congr 1; omega)

theorem step_eq (b : Backoff) : b.step = stepAt b.initial b.max b.attempt := by
  have hfits := b.fits
  unfold step stepAt
  dsimp only
  rw [factor_eq]
  split_ifs with hproduct
  · rfl
  · rw [Nat.min_self, Nat.min_eq_right (by omega)]

theorem stepAt_le (initial max k : Nat) : stepAt initial max k ≤ max := Nat.min_le_right ..

/-- The jitter is a part of the half that it spreads. -/
theorem jitter_le (spread : Nat) (random : UInt32) :
    saturatingMul128 spread random.toNat / u32Max ≤ spread := by
  have hrandom : random.toNat ≤ u32Max := Nat.le_pred_of_lt random.toNat_lt
  refine Nat.div_le_of_le_mul ?_
  unfold saturatingMul128
  calc min (spread * random.toNat) u128Max ≤ spread * random.toNat := Nat.min_le_left ..
    _ ≤ spread * u32Max := Nat.mul_le_mul_left _ hrandom
    _ = u32Max * spread := Nat.mul_comm ..

/-- One delay: at least half of the step, and at most all of it. -/
theorem nextDelay_bounds (b : Backoff) (random : UInt32) :
    b.step / 2 ≤ (b.nextDelay random).1 ∧ (b.nextDelay random).1 ≤ b.step := by
  have hstep : b.step ≤ durationMax := by
    have hle := stepAt_le b.initial b.max b.attempt
    have hfits := b.fits
    rw [step_eq]
    omega
  have hjitter := jitter_le (min (b.step / 2) u64Max) random
  simp only [nextDelay]
  generalize saturatingMul128 (min (b.step / 2) u64Max) random.toNat / u32Max = jitter at hjitter ⊢
  omega

/-- The steps of calls, from `k` attempts since the last reset on. -/
def steps (initial max : Nat) : Nat → List Call → List Nat
  | _, [] => []
  | k, .nextDelay _ :: calls => stepAt initial max k :: steps initial max (k + 1) calls
  | _, .reset :: calls => steps initial max 0 calls

/-- A state that has counted `k` attempts: from the largest `u32` on it counts no more. -/
def Counted (initial max k : Nat) (b : Backoff) : Prop :=
  b.initial = initial ∧ b.max = max ∧ b.attempt = min k u32Max

theorem Counted.step {initial max k : Nat} {b : Backoff} (h : Counted initial max k b) :
    b.step = stepAt initial max k := by
  obtain ⟨rfl, rfl, hattempt⟩ := h
  rw [step_eq, stepAt, stepAt, ← factor_eq, ← factor_eq, hattempt, factor_min]

theorem Counted.next {initial max k : Nat} {b : Backoff} (h : Counted initial max k b)
    (random : UInt32) : Counted initial max (k + 1) (b.nextDelay random).2 := by
  obtain ⟨rfl, rfl, hattempt⟩ := h
  refine ⟨rfl, rfl, ?_⟩
  simp only [nextDelay]
  omega

theorem delays_bounds (initial max : Nat) (calls : List Call) : ∀ {b : Backoff} {k : Nat},
    Counted initial max k b →
    List.Forall₂ (fun step delay => step / 2 ≤ delay ∧ delay ≤ step) (steps initial max k calls)
      (b.delays calls) := by
  induction calls with
  | nil => intro b k _; exact .nil
  | cons call calls ih =>
      intro b k h
      cases call with
      | nextDelay random =>
          have hbounds := b.nextDelay_bounds random
          rw [h.step] at hbounds
          exact .cons hbounds (ih (h.next random))
      | reset => exact ih (b := b.reset) (k := 0) ⟨h.1, h.2.1, by simp [reset]⟩

/-- **Backoff.** Over every sequence of delays and resets, each delay lies between half
and all of its step, and the step after `k` attempts since the last reset is the
initial delay doubled `k` times, up to `2 ^ 32 - 1` times it, and never above the cap. -/
theorem backoff_delays (initial max : Nat) (hinitial : initial ≤ durationMax)
    (hmax : max ≤ durationMax) (calls : List Call) :
    List.Forall₂ (fun step delay => step / 2 ≤ delay ∧ delay ≤ step)
      (steps initial (Nat.max max initial) 0 calls) ((new initial max hinitial hmax).delays calls) :=
  delays_bounds initial (Nat.max max initial) calls (k := 0) ⟨rfl, rfl, by simp [new]⟩

/-- Five attempts from 100 ms to a cap of 1 s, a reset, and one more. -/
theorem backoff_of_100_ms :
    List.Forall₂ (fun step delay => step / 2 ≤ delay ∧ delay ≤ step)
      [100000000, 200000000, 400000000, 800000000, 1000000000, 100000000]
      ((new 100000000 1000000000 (by decide) (by decide)).delays
        (List.replicate 5 (.nextDelay 2147483647) ++ [.reset, .nextDelay 5])) := by
  have hsteps : [100000000, 200000000, 400000000, 800000000, 1000000000, 100000000] =
      steps 100000000 (Nat.max 1000000000 100000000) 0
        (List.replicate 5 (.nextDelay 2147483647) ++ [.reset, .nextDelay 5]) := by decide
  rw [hsteps]
  exact backoff_delays 100000000 1000000000 (by decide) (by decide) _

end Bowst.Venue.Backoff
