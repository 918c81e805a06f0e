/-
Bowst.Venue.RateLimitTheorems — the token bucket never grants more than its
budget, and its waits are exact.

Nothing saturates: with a window below 2^64 nanoseconds a full balance fits in a
`u128`, and what saturates above it is cut to it anyway. So `refill` is plain
arithmetic (`refill_scaled`), and `tryTake_cases` says once what a call can do.

  §1 Refill  — the balance at a time.
  §2 Calls   — one call, and the meter it makes of the bucket.
  §3 Grants  — the bound over any stretch of a history.
  §4 Waits   — the time a refused call is told.
-/
import Mathlib.Algebra.Order.Field.Rat
import Mathlib.Tactic.FieldSimp
import Bowst.Lib.Meter
import Bowst.Venue.RateLimit

namespace Bowst.Venue

open Bowst.Core Bowst.Lib

/-! ## §1 Refill -/

theorem toNat_max (a b : UInt64) : (max a b).toNat = max a.toNat b.toNat := by
  rw [show max a b = if a ≤ b then b else a from rfl]
  split <;> rename_i h <;> rw [UInt64.le_iff_toNat_le] at h <;> omega

theorem toNat_clampU64 (n : Nat) : (clampU64 n).toNat = min n u64Max := by
  simp [clampU64, u64Max]

theorem divCeil_le_iff {n d : Nat} (hd : 0 < d) (k : Nat) : divCeil n d ≤ k ↔ n ≤ k * d := by
  have hsplit := Nat.div_add_mod n d
  have hmod := Nat.mod_lt n hd
  have hstep : n / d + 1 ≤ k ↔ n < k * d := by
    rw [Nat.succ_le_iff, Nat.div_lt_iff_lt_mul hd]
  unfold divCeil
  by_cases hr : n % d > 0
  · rw [if_pos hr, hstep]
    refine ⟨le_of_lt, fun h => lt_of_le_of_ne h fun heq => ?_⟩
    rw [heq, Nat.mul_mod_left] at hr
    exact lt_irrefl _ hr
  · rw [if_neg hr]
    have heq : n = n / d * d := by
      rw [Nat.mul_comm]
      omega
    constructor
    · intro h
      rw [heq]
      exact Nat.mul_le_mul_right d h
    · intro h
      exact Nat.div_le_of_le_mul (by rw [Nat.mul_comm]; exact h)

namespace TokenBucket

/-- The balance of a full bucket. -/
def full (b : TokenBucket) : Nat := b.capacity.toNat * b.window

/-- What holds of every bucket in use. -/
structure Inv (b : TokenBucket) : Prop where
  window_pos : 1 ≤ b.window
  window_lt : b.window < 2 ^ 64
  scaled_le : b.scaled ≤ b.full

/-- Two `u64`s have a product that fits in a `u128`. -/
theorem saturatingMul128_eq (a : UInt64) {n : Nat} (hn : n < 2 ^ 64) :
    saturatingMul128 a.toNat n = a.toNat * n := by
  have ha := a.toNat_lt
  have hmul : a.toNat * n ≤ (2 ^ 64 - 1) * (2 ^ 64 - 1) :=
    Nat.mul_le_mul (by omega) (by omega)
  exact Nat.min_eq_left (le_trans hmul (by decide))

theorem full_le {b : TokenBucket} (h : b.window < 2 ^ 64) : b.full ≤ u128Max := by
  have ha := saturatingMul128_eq b.capacity h
  unfold full
  rw [← ha]
  exact Nat.min_le_right ..

theorem new_inv (capacity : UInt64) {window : Nat} (now : UInt64) (h : window < 2 ^ 64) :
    (TokenBucket.new capacity window now).Inv where
  window_pos := by simp [TokenBucket.new]
  window_lt := by simp [TokenBucket.new]; omega
  scaled_le := Nat.min_le_left ..

@[simp] theorem refill_capacity (b : TokenBucket) (now : UInt64) :
    (b.refill now).capacity = b.capacity := rfl

@[simp] theorem refill_window (b : TokenBucket) (now : UInt64) :
    (b.refill now).window = b.window := rfl

@[simp] theorem refill_last (b : TokenBucket) (now : UInt64) :
    (b.refill now).last = max b.last now := rfl

/-- The balance after a refill: what has accrued, up to a full bucket. -/
theorem refill_scaled {b : TokenBucket} (h : b.Inv) (now : UInt64) :
    (b.refill now).scaled
      = min (b.scaled + b.capacity.toNat * (now.toNat - b.last.toNat)) b.full := by
  have hsince : saturatingSince now b.last < 2 ^ 64 := by
    have hnow := now.toNat_lt
    simp only [saturatingSince]
    omega
  have hearned : saturatingMul128 (saturatingSince now b.last) b.capacity.toNat
      = b.capacity.toNat * (now.toNat - b.last.toNat) := by
    rw [← saturatingSince, ← saturatingMul128_eq b.capacity hsince, saturatingMul128,
      saturatingMul128, Nat.mul_comm]
  have hfull := full_le h.window_lt
  simp only [refill, saturatingMul128_eq b.capacity h.window_lt, hearned, saturatingAdd128]
  unfold full at hfull ⊢
  omega

theorem refill_inv {b : TokenBucket} (h : b.Inv) (now : UInt64) : (b.refill now).Inv where
  window_pos := h.window_pos
  window_lt := h.window_lt
  scaled_le := by
    rw [refill_scaled h]
    exact Nat.min_le_right ..

/-! ## §2 Calls -/

/-- What `tryTake` can do: refuse a cost above the capacity without looking at
the time, or refill and take the cost, or refill and tell the wait. -/
theorem tryTake_cases {b : TokenBucket} (h : b.Inv) (cost now : UInt64) :
    (b.capacity < cost ∧ b.tryTake cost now = (.error durationMax, b)) ∨
    (cost ≤ b.capacity ∧ cost.toNat * b.window ≤ (b.refill now).scaled ∧
      b.tryTake cost now
        = (.ok (), { b.refill now with
            scaled := (b.refill now).scaled - cost.toNat * b.window })) ∨
    (cost ≤ b.capacity ∧ (b.refill now).scaled < cost.toNat * b.window ∧
      b.tryTake cost now
        = (.error (divCeil (cost.toNat * b.window - (b.refill now).scaled) b.capacity.toNat),
            b.refill now)) := by
  have hneeded := saturatingMul128_eq cost h.window_lt
  unfold tryTake
  by_cases hcost : cost > b.capacity
  · exact Or.inl ⟨hcost, by rw [if_pos hcost]⟩
  · have hle : cost ≤ b.capacity := UInt64.not_lt.mp hcost
    simp only [if_neg hcost, refill_window, refill_capacity, hneeded]
    by_cases henough : (b.refill now).scaled ≥ cost.toNat * b.window
    · exact Or.inr (Or.inl ⟨hle, henough, by rw [if_pos henough]⟩)
    · refine Or.inr (Or.inr ⟨hle, by omega, ?_⟩)
      rw [if_neg henough]
      have hle' := UInt64.le_iff_toNat_le.mp hle
      have hpos : 0 < cost.toNat := by
        refine Nat.pos_of_ne_zero fun hzero => henough ?_
        rw [hzero, Nat.zero_mul]
        exact Nat.zero_le _
      have hmax : (max b.capacity 1).toNat = b.capacity.toNat := by
        rw [toNat_max]
        simp
        omega
      -- The wait is at most one window, so it is far from the clamp.
      have hwait : divCeil (cost.toNat * b.window - (b.refill now).scaled) b.capacity.toNat
          ≤ b.window := by
        rw [divCeil_le_iff (by omega), Nat.mul_comm b.window]
        exact le_trans (Nat.sub_le ..) (Nat.mul_le_mul_right _ hle')
      have hlt := h.window_lt
      rw [hmax, toNat_clampU64, Nat.min_eq_left (by unfold u64Max; omega)]

end TokenBucket

namespace BucketCall

variable {b : TokenBucket}

/-- The largest of the times a call may move the bucket to. -/
def lastAfter (b : TokenBucket) (call : BucketCall) : UInt64 :=
  (call.timeShown b.capacity).elim b.last (max b.last)

/-- A refill followed by spending `spent` of the balance. -/
theorem spend_spec (h : b.Inv) (now : UInt64) (spent left : Nat)
    (hleft : spent + left ≤ (b.refill now).scaled) :
    ({ b.refill now with scaled := left } : TokenBucket).Inv ∧
      spent + left ≤ b.scaled + b.capacity.toNat * ((max b.last now).toNat - b.last.toNat) ∧
      spent + left ≤ b.full := by
  have hscaled := TokenBucket.refill_scaled h now
  have hfull := (TokenBucket.refill_inv h now).scaled_le
  have htime : (max b.last now).toNat - b.last.toNat = now.toNat - b.last.toNat := by
    rw [toNat_max]
    omega
  have hsame : (b.refill now).full = b.full := rfl
  refine ⟨⟨h.window_pos, h.window_lt, ?_⟩, ?_, by omega⟩
  · show left ≤ (b.refill now).full
    omega
  · rw [htime]
    omega

/-- What a call does: it keeps the parameters, moves the time to what it is
shown, and pays for what it grants. -/
theorem run_spec (h : b.Inv) (call : BucketCall) :
    (call.run b).Inv ∧ (call.run b).capacity = b.capacity ∧ (call.run b).window = b.window ∧
      (call.run b).last = call.lastAfter b ∧
      call.granted b * b.window + (call.run b).scaled
        ≤ b.scaled + b.capacity.toNat * ((call.run b).last.toNat - b.last.toNat) ∧
      call.granted b * b.window + (call.run b).scaled ≤ b.full := by
  cases call with
  | tryTake cost now =>
      rcases TokenBucket.tryTake_cases h cost now with ⟨hcost, hcall⟩ | ⟨hcost, henough, hcall⟩ |
        ⟨hcost, hmissing, hcall⟩
      · have hlast : lastAfter b (.tryTake cost now) = b.last := by
          simp [lastAfter, timeShown, hcost]
        have hle := h.scaled_le
        simp only [run, granted, hcall, hlast, Nat.zero_mul]
        exact ⟨h, trivial, trivial, trivial, by omega, by omega⟩
      · have hlast : lastAfter b (.tryTake cost now) = max b.last now := by
          simp [lastAfter, timeShown, UInt64.not_lt.mpr hcost]
        obtain ⟨hinv, hpaid, hcapped⟩ := spend_spec h now (cost.toNat * b.window)
          ((b.refill now).scaled - cost.toNat * b.window) (by omega)
        simp only [run, granted, hcall, hlast]
        exact ⟨hinv, rfl, rfl, rfl, hpaid, hcapped⟩
      · have hlast : lastAfter b (.tryTake cost now) = max b.last now := by
          simp [lastAfter, timeShown, UInt64.not_lt.mpr hcost]
        obtain ⟨hinv, hpaid, hcapped⟩ := spend_spec h now 0 (b.refill now).scaled (by omega)
        simp only [run, granted, hcall, hlast, Nat.zero_mul]
        exact ⟨hinv, rfl, rfl, rfl, hpaid, hcapped⟩
  | available now =>
      obtain ⟨hinv, hpaid, hcapped⟩ := spend_spec h now 0 (b.refill now).scaled (by omega)
      simp only [run, granted, Nat.zero_mul]
      exact ⟨hinv, rfl, rfl, rfl, hpaid, hcapped⟩
  | observeUsed used now =>
      obtain ⟨hinv, hpaid, hcapped⟩ := spend_spec h now 0 (b.observeUsed used now).scaled
        (by rw [Nat.zero_add]; exact Nat.min_le_left ..)
      simp only [run, granted, Nat.zero_mul]
      exact ⟨hinv, rfl, rfl, rfl, hpaid, hcapped⟩

/-- The bucket as a metered state machine, in scaled tokens. -/
def meter (capacity : UInt64) (window : Nat) : Meter run where
  spent := fun b call => call.granted b * window
  balance := TokenBucket.scaled
  clock := fun b => b.last.toNat
  rate := capacity.toNat
  full := capacity.toNat * window
  Inv := fun b => b.Inv ∧ b.capacity = capacity ∧ b.window = window
  inv_step := by
    intro b call ⟨h, hcap, hwin⟩
    obtain ⟨hinv, hcap', hwin', _⟩ := run_spec h call
    exact ⟨hinv, hcap'.trans hcap, hwin'.trans hwin⟩
  clock_le := by
    intro b call ⟨h, _, _⟩
    obtain ⟨_, _, _, hlast, _⟩ := run_spec h call
    rw [hlast]
    unfold lastAfter
    cases call.timeShown b.capacity with
    | none => simp
    | some t => simp [toNat_max]
  paid := by
    intro b call ⟨h, hcap, hwin⟩
    obtain ⟨_, _, _, _, hpaid, _⟩ := run_spec h call
    rwa [hcap, hwin] at hpaid
  capped := by
    intro b call ⟨h, hcap, hwin⟩
    obtain ⟨_, _, _, _, _, hcapped⟩ := run_spec h call
    rwa [TokenBucket.full, hcap, hwin] at hcapped

theorem meter_spentAll (capacity : UInt64) (window : Nat) (calls : List BucketCall) :
    ∀ b, (meter capacity window).spentAll b calls = grantedAll b calls * window := by
  induction calls with
  | nil => intro b; simp [Meter.spentAll, grantedAll]
  | cons call calls ih =>
      intro b
      rw [Meter.spentAll, grantedAll, ih, Nat.add_mul]
      rfl

/-- The time a call is made at. -/
def now : BucketCall → UInt64
  | .tryTake _ now => now
  | .available now => now
  | .observeUsed _ now => now

/-- The largest time the bucket has been shown, or its creation time if later. -/
def latestShown (capacity created : UInt64) (calls : List BucketCall) : UInt64 :=
  (calls.filterMap (timeShown capacity)).foldl max created

/-- The largest time a call was made at, whether or not the bucket looked at it. -/
def latestCalled (created : UInt64) (calls : List BucketCall) : UInt64 :=
  (calls.map now).foldl max created

/-- The bucket's own time is the largest it has been shown. -/
theorem run_last (calls : List BucketCall) : ∀ {b : TokenBucket}, b.Inv →
    (calls.foldl run b).last = latestShown b.capacity b.last calls := by
  induction calls with
  | nil => intro b _; rfl
  | cons call calls ih =>
      intro b h
      obtain ⟨hinv, hcap, _, hlast, _⟩ := run_spec h call
      rw [List.foldl_cons, ih hinv, hcap, hlast]
      unfold lastAfter latestShown
      cases hshown : call.timeShown b.capacity with
      | none => simp [hshown]
      | some t => simp [hshown]

/-! ## §3 Grants -/

/-- The bucket before call `k` of a history, counted from 0. -/
def bucketBefore (capacity : UInt64) (window : Nat) (created : UInt64) (calls : List BucketCall)
    (k : Nat) : TokenBucket :=
  (calls.take k).foldl run (TokenBucket.new capacity window created)

/-- The tokens granted by calls `i` to `j`, both included. -/
def grantedFrom (capacity : UInt64) (window : Nat) (created : UInt64) (calls : List BucketCall)
    (i j : Nat) : Nat :=
  grantedAll (bucketBefore capacity window created calls i) ((calls.take (j + 1)).drop i)

/-- No stretch of the history is granted more than a capacity and what accrues
from its first call to its last, call `k` being at time `time k`. -/
def NeverOverGrants (capacity : UInt64) (window : Nat) (created : UInt64)
    (calls : List BucketCall) (time : Nat → UInt64) : Prop :=
  ∀ i j, i ≤ j → j < calls.length →
    (grantedFrom capacity window created calls i j : ℚ) ≤ (capacity.toNat : ℚ)
      + (capacity.toNat : ℚ) * (((time j).toNat : ℚ) - ((time i).toNat : ℚ)) / (window : ℚ)

theorem bucketBefore_inv (capacity : UInt64) {window : Nat} (created : UInt64)
    (hpos : 1 ≤ window) (hlt : window < 2 ^ 64) (calls : List BucketCall) (k : Nat) :
    (meter capacity window).Inv (bucketBefore capacity window created calls k) := by
  refine Meter.inv_run _ _ ⟨TokenBucket.new_inv capacity created hlt, rfl, ?_⟩
  simp [TokenBucket.new, hpos]

/-- The bound in scaled tokens. -/
theorem grantedFrom_le (capacity : UInt64) {window : Nat} (created : UInt64)
    (hpos : 1 ≤ window) (hlt : window < 2 ^ 64) (calls : List BucketCall) {i j : Nat}
    (hij : i ≤ j) (hj : j < calls.length) :
    (latestShown capacity created (calls.take (i + 1))).toNat
        ≤ (latestShown capacity created (calls.take (j + 1))).toNat ∧
      grantedFrom capacity window created calls i j * window
        ≤ capacity.toNat * window + capacity.toNat *
          ((latestShown capacity created (calls.take (j + 1))).toNat
            - (latestShown capacity created (calls.take (i + 1))).toNat) := by
  let start := bucketBefore capacity window created calls i
  have hinv : (meter capacity window).Inv start :=
    bucketBefore_inv capacity created hpos hlt calls i
  have hlast : ∀ k, (bucketBefore capacity window created calls k).last
      = latestShown capacity created (calls.take k) :=
    fun k => run_last (calls.take k) (TokenBucket.new_inv capacity created hlt)
  have hi : i < calls.length := by omega
  let call := calls[i]
  let rest := (calls.take (j + 1)).drop (i + 1)
  have hfirst : calls.take (i + 1) = calls.take i ++ [call] := List.take_succ_eq_append_getElem hi
  have hsplit : (calls.take (j + 1)).drop i = call :: rest := by
    rw [List.drop_eq_getElem_cons (by simp; omega), List.getElem_take]
  have hall : calls.take (j + 1) = calls.take i ++ call :: rest := by
    rw [← hsplit]
    conv => lhs; rw [← List.take_append_drop i (calls.take (j + 1))]
    rw [List.take_take, Nat.min_eq_left (by omega)]
  have hstart : (call.run start).last = latestShown capacity created (calls.take (i + 1)) := by
    rw [← hlast (i + 1)]
    unfold bucketBefore
    rw [hfirst, List.foldl_append]
    rfl
  have hend : ((call :: rest).foldl run start).last
      = latestShown capacity created (calls.take (j + 1)) := by
    rw [← hlast (j + 1)]
    unfold bucketBefore
    rw [hall, List.foldl_append]
    rfl
  have hinv' := (meter capacity window).inv_step call hinv
  have hclock := (meter capacity window).clock_le_run rest hinv'
  have hbound := (meter capacity window).window_le call rest hinv
  rw [meter_spentAll] at hbound
  rw [← hstart, ← hend, grantedFrom, hsplit]
  exact ⟨hclock, hbound⟩

/-- A venue's report never adds tokens. -/
theorem observeUsed_available_le {b : TokenBucket} (h : b.Inv) (used now : UInt64) :
    ((b.observeUsed used now).available now).1 ≤ (b.available now).1 := by
  have hinv : (b.observeUsed used now).Inv := (run_spec h (.observeUsed used now)).1
  have hle : ((b.observeUsed used now).refill now).scaled ≤ (b.refill now).scaled := by
    have hlast : (b.observeUsed used now).last.toNat = max b.last.toNat now.toNat := toNat_max ..
    have hscaled : (b.observeUsed used now).scaled ≤ (b.refill now).scaled := Nat.min_le_left ..
    have hzero : now.toNat - max b.last.toNat now.toNat = 0 := by omega
    rw [TokenBucket.refill_scaled hinv, hlast, hzero, Nat.mul_zero, Nat.add_zero]
    exact le_trans (Nat.min_le_left ..) hscaled
  rw [UInt64.le_iff_toNat_le]
  simp only [TokenBucket.available, toNat_clampU64]
  have hdiv := Nat.div_le_div_right (c := b.window) hle
  have hsame : ((b.observeUsed used now).refill now).window = b.window := rfl
  rw [hsame, TokenBucket.refill_window]
  omega

end BucketCall

/-- **The token bucket never over-grants.** Between any two calls of any history
the tokens granted are at most a capacity and what accrues between the largest
times the bucket was shown up to the two calls; the balance never exceeds a full
bucket; and a venue's report never adds to what is available at its time. -/
theorem token_bucket_never_over_grants (capacity : UInt64) (window : Nat) (created : UInt64)
    (hpos : 1 ≤ window) (hlt : window < 2 ^ 64) (calls : List BucketCall) :
    BucketCall.NeverOverGrants capacity window created calls
        (fun k => BucketCall.latestShown capacity created (calls.take (k + 1))) ∧
      ∀ k,
        let b := BucketCall.bucketBefore capacity window created calls k
        b.scaled ≤ capacity.toNat * window ∧
          ∀ used now, ((b.observeUsed used now).available now).1 ≤ (b.available now).1 := by
  constructor
  · intro i j hij hj
    obtain ⟨hclock, hbound⟩ :=
      BucketCall.grantedFrom_le capacity created hpos hlt calls hij hj
    have hw : (0 : ℚ) < (window : ℚ) := by exact_mod_cast hpos
    have hcast := (Nat.cast_le (α := ℚ)).mpr hbound
    push_cast [Nat.cast_sub hclock] at hcast
    rw [← sub_le_iff_le_add', le_div_iff₀ hw, sub_mul]
    linarith
  · intro k b
    obtain ⟨hinv, hcap, hwin⟩ := BucketCall.bucketBefore_inv capacity created hpos hlt calls k
    refine ⟨?_, fun used now => BucketCall.observeUsed_available_le hinv used now⟩
    have hle := hinv.scaled_le
    rwa [TokenBucket.full, hcap, hwin] at hle

/-- The source's own figures: 6000 tokens a minute, spent, refused and refilled. -/
theorem token_bucket_never_over_grants_by_minute :
    BucketCall.NeverOverGrants 6000 60000000000 0
      [.tryTake 5000 0, .tryTake 1100 0, .observeUsed 5000 0, .tryTake 1100 1000000000]
      (fun k => BucketCall.latestShown 6000 0
        (([.tryTake 5000 0, .tryTake 1100 0, .observeUsed 5000 0,
          .tryTake 1100 1000000000] : List BucketCall).take (k + 1))) :=
  (token_bucket_never_over_grants 6000 60000000000 0 (by decide) (by decide) _).1

/-- A refused cost that shows a later time does not move the bucket, which then
still earns the time up to it: counted from the refused call's time, the bound fails. -/
theorem refused_cost_hides_time :
    ¬ BucketCall.NeverOverGrants 10 10 0 [.tryTake 11 100, .tryTake 10 0, .tryTake 10 10]
      (fun k => BucketCall.latestCalled 0
        (([.tryTake 11 100, .tryTake 10 0, .tryTake 10 10] : List BucketCall).take (k + 1))) := by
  intro h
  have hbound := h 1 2 (by decide) (by decide)
  have hgranted : BucketCall.grantedFrom 10 10 0 [.tryTake 11 100, .tryTake 10 0, .tryTake 10 10]
      1 2 = 20 := by decide
  have htime : ∀ k, 1 ≤ k → k ≤ 2 → BucketCall.latestCalled 0
      (([.tryTake 11 100, .tryTake 10 0, .tryTake 10 10] : List BucketCall).take (k + 1)) = 100 := by
    decide
  simp only [hgranted, htime 1 (by decide) (by decide), htime 2 (by decide) (by decide)] at hbound
  norm_num at hbound
  exact absurd hbound (by decide)

/-! ## §4 Waits -/

/-- A bucket some history of calls leads to. -/
def TokenBucket.Reachable (b : TokenBucket) : Prop :=
  ∃ capacity window created, ∃ calls : List BucketCall,
    b = calls.foldl BucketCall.run (TokenBucket.new capacity window created)

theorem run_window (b : TokenBucket) (call : BucketCall) : (call.run b).window = b.window := by
  cases call with
  | tryTake cost now =>
      simp only [BucketCall.run, TokenBucket.tryTake]
      split
      · rfl
      · split <;> rfl
  | available now => rfl
  | observeUsed used now => rfl

theorem foldl_run_window (calls : List BucketCall) : ∀ b : TokenBucket,
    (calls.foldl BucketCall.run b).window = b.window := by
  induction calls with
  | nil => intro b; rfl
  | cons call calls ih => intro b; rw [List.foldl_cons, ih, run_window]

theorem TokenBucket.Reachable.inv {b : TokenBucket} (h : b.Reachable) (hlt : b.window < 2 ^ 64) :
    b.Inv := by
  obtain ⟨capacity, window, created, calls, rfl⟩ := h
  rw [foldl_run_window] at hlt
  have hwindow : window < 2 ^ 64 := lt_of_le_of_lt (Nat.le_max_left window 1) hlt
  exact ((BucketCall.meter capacity (max window 1)).inv_run calls
    ⟨TokenBucket.new_inv capacity created hwindow, rfl, rfl⟩).1

/-- When a cost within the capacity is granted: once enough has accrued. -/
theorem tryTake_ok_iff {b : TokenBucket} (h : b.Inv) {cost : UInt64} (hcost : cost ≤ b.capacity)
    (now : UInt64) : (b.tryTake cost now).1 = .ok () ↔
      cost.toNat * b.window ≤ b.scaled + b.capacity.toNat * (now.toNat - b.last.toNat) := by
  have hscaled := TokenBucket.refill_scaled h now
  have hfull : cost.toNat * b.window ≤ b.full :=
    Nat.mul_le_mul_right _ (UInt64.le_iff_toNat_le.mp hcost)
  rcases TokenBucket.tryTake_cases h cost now with ⟨hgt, _⟩ | ⟨_, henough, hcall⟩ |
    ⟨_, hmissing, hcall⟩
  · exact absurd hcost (UInt64.not_le.mpr hgt)
  · rw [hcall]
    simp only [true_iff]
    omega
  · rw [hcall]
    simp only [reduceCtorEq, false_iff]
    omega

/-- After a refusal the cost is granted exactly from the end of the wait on. -/
theorem tryTake_after_wait {b : TokenBucket} (h : b.Inv) {cost now : UInt64} {wait : Nat}
    (hcost : cost ≤ b.capacity) (hnow : b.last ≤ now)
    (hwait : (b.tryTake cost now).1 = .error wait) {t : UInt64} (ht : now ≤ t) :
    ((b.tryTake cost now).2.tryTake cost t).1 = .ok () ↔ now.toNat + wait ≤ t.toNat := by
  rw [UInt64.le_iff_toNat_le] at hnow ht
  rcases TokenBucket.tryTake_cases h cost now with ⟨hgt, _⟩ | ⟨_, _, hcall⟩ | ⟨_, hmissing, hcall⟩
  · exact absurd hcost (UInt64.not_le.mpr hgt)
  · rw [hcall] at hwait
    cases hwait
  · rw [hcall] at hwait ⊢
    simp only [Except.error.injEq] at hwait
    have hpos : 0 < b.capacity.toNat := by
      refine Nat.pos_of_ne_zero fun hzero => ?_
      have hle := UInt64.le_iff_toNat_le.mp hcost
      rw [show cost.toNat = 0 by omega, Nat.zero_mul] at hmissing
      exact Nat.not_lt_zero _ hmissing
    have hlast : (b.refill now).last.toNat = now.toNat := by
      rw [TokenBucket.refill_last, toNat_max]
      omega
    have hceil := divCeil_le_iff (n := cost.toNat * b.window - (b.refill now).scaled) hpos
      (t.toNat - now.toNat)
    rw [hwait, Nat.mul_comm (t.toNat - now.toNat)] at hceil
    rw [tryTake_ok_iff (TokenBucket.refill_inv h now) hcost, hlast]
    simp only [TokenBucket.refill_window, TokenBucket.refill_capacity]
    omega

/-- **The token bucket's wait is exact.** If a cost within the capacity is refused
at a time not before the last one seen, the same call is granted at the end of
the wait it was told, and at no time before. -/
theorem token_bucket_wait_is_exact (b : TokenBucket) (hb : b.Reachable) (hlt : b.window < 2 ^ 64)
    (cost now : UInt64) (hcost : cost ≤ b.capacity) (hnow : b.last ≤ now) (wait : Nat)
    (hwait : (b.tryTake cost now).1 = .error wait) (hend : now.toNat + wait < 2 ^ 64) :
    let after := (b.tryTake cost now).2
    (after.tryTake cost (UInt64.ofNat (now.toNat + wait))).1 = .ok () ∧
      ∀ t, now ≤ t → t.toNat < now.toNat + wait →
        ∃ wait', (after.tryTake cost t).1 = .error wait' := by
  intro after
  have hinv := hb.inv hlt
  constructor
  · have htime : (UInt64.ofNat (now.toNat + wait)).toNat = now.toNat + wait :=
      UInt64.toNat_ofNat_of_lt hend
    have hlater : now ≤ UInt64.ofNat (now.toNat + wait) := by
      rw [UInt64.le_iff_toNat_le, htime]
      omega
    exact (tryTake_after_wait hinv hcost hnow hwait hlater).mpr (by omega)
  · intro t ht hbefore
    have hiff := tryTake_after_wait hinv hcost hnow hwait ht
    cases hres : (after.tryTake cost t).1 with
    | error wait' => exact ⟨wait', rfl⟩
    | ok u => exact absurd (hiff.mp hres) (by omega)

/-- The refusal of the source's unit test: 1100 tokens with 1000 left, at 100
tokens a second. -/
theorem token_bucket_wait_is_exact_one_second :
    let b := (([.tryTake 5000 0] : List BucketCall).foldl BucketCall.run
      (TokenBucket.new 6000 60000000000 0))
    ((b.tryTake 1100 0).2.tryTake 1100 (UInt64.ofNat (0 + 1000000000))).1 = .ok () := by
  intro b
  exact (token_bucket_wait_is_exact b ⟨6000, 60000000000, 0, _, rfl⟩ (by decide) 1100 0
    (by decide) (by decide) 1000000000 (by decide) (by decide)).1

end Bowst.Venue
