/-
Bowst.Venue.RateLimit — the token bucket of the venue's request budget
(`bowst-venue/src/ratelimit.rs`, with the times of `bowst-core/src/time.rs`).

Counts and times are `u64`s. A `Duration` is its number of nanoseconds, which is
a `Nat`: `Duration::MAX` is far above every `u64`. The scaled balance is a
`u128` with saturating arithmetic. Every method is a function from the bucket
before the call to the result and the bucket after it.
-/
import Bowst.Core.Units

namespace Bowst.Venue

open Bowst.Core

/-- `u128::MAX`. -/
def u128Max : Nat := 2 ^ 128 - 1

/-- `u128::saturating_add`. -/
def saturatingAdd128 (a b : Nat) : Nat := min (a + b) u128Max

/-- `u128::saturating_mul`. -/
def saturatingMul128 (a b : Nat) : Nat := min (a * b) u128Max

/-- `u128::div_ceil`. -/
def divCeil (n d : Nat) : Nat := if n % d > 0 then n / d + 1 else n / d

/-- `u64::try_from(n).unwrap_or(u64::MAX)`. -/
def clampU64 (n : Nat) : UInt64 := UInt64.ofNat (min n u64Max)

/-- `Duration::MAX` in nanoseconds. -/
def durationMax : Nat := (2 ^ 64 - 1) * 1000000000 + 999999999

/-- `MonoTime::saturating_since`, in nanoseconds. -/
def saturatingSince (now earlier : UInt64) : Nat := now.toNat - earlier.toNat

/-- A token bucket refilled evenly over a window. -/
structure TokenBucket where
  capacity : UInt64
  /-- In nanoseconds. -/
  window : Nat
  /-- Tokens scaled by `window`, so refills stay exact integers. -/
  scaled : Nat
  last : UInt64
  deriving DecidableEq, Repr

namespace TokenBucket

/-- A full bucket allowing `capacity` tokens per `window`. -/
def new (capacity : UInt64) (window : Nat) (now : UInt64) : TokenBucket :=
  let window := max window 1
  { capacity, window, scaled := saturatingMul128 capacity.toNat window, last := now }

def refill (b : TokenBucket) (now : UInt64) : TokenBucket :=
  let elapsed := saturatingSince now b.last
  let full := saturatingMul128 b.capacity.toNat b.window
  { b with
    last := max b.last now
    scaled := min (saturatingAdd128 b.scaled (saturatingMul128 elapsed b.capacity.toNat)) full }

/-- Whole tokens available at `now`. The window is never zero, so the source's
default for a division by zero is never used; it is `Nat`'s. -/
def available (b : TokenBucket) (now : UInt64) : UInt64 × TokenBucket :=
  let b := b.refill now
  (clampU64 (b.scaled / b.window), b)

/-- Takes `cost` tokens, or returns how long to wait until they are available. -/
def tryTake (b : TokenBucket) (cost now : UInt64) : Except Nat Unit × TokenBucket :=
  if cost > b.capacity then (.error durationMax, b)
  else
    let b := b.refill now
    let needed := saturatingMul128 cost.toNat b.window
    if b.scaled ≥ needed then (.ok (), { b with scaled := b.scaled - needed })
    else
      let missing := needed - b.scaled
      let wait := divCeil missing (max b.capacity 1).toNat
      (.error (clampU64 wait).toNat, b)

/-- Applies the venue's report that `used` tokens of the window are spent. -/
def observeUsed (b : TokenBucket) (used now : UInt64) : TokenBucket :=
  let b := b.refill now
  let remaining := saturatingMul128 (b.capacity.toNat - used.toNat) b.window
  { b with scaled := min b.scaled remaining }

end TokenBucket

/-- A call on a bucket. -/
inductive BucketCall where
  | tryTake (cost now : UInt64)
  | available (now : UInt64)
  | observeUsed (used now : UInt64)
  deriving DecidableEq, Repr

namespace BucketCall

/-- The bucket after a call. -/
def run (b : TokenBucket) : BucketCall → TokenBucket
  | .tryTake cost now => (b.tryTake cost now).2
  | .available now => (b.available now).2
  | .observeUsed used now => b.observeUsed used now

/-- The tokens a call is granted. -/
def granted (b : TokenBucket) : BucketCall → Nat
  | .tryTake cost now =>
      match (b.tryTake cost now).1 with
      | .ok () => cost.toNat
      | .error _ => 0
  | .available _ => 0
  | .observeUsed _ _ => 0

/-- The tokens a sequence of calls is granted. -/
def grantedAll (b : TokenBucket) : List BucketCall → Nat
  | [] => 0
  | call :: calls => call.granted b + grantedAll (call.run b) calls

/-- The time a call shows the bucket: a cost above the capacity is refused
before the bucket looks at the time. -/
def timeShown (capacity : UInt64) : BucketCall → Option UInt64
  | .tryTake cost now => if cost > capacity then none else some now
  | .available now => some now
  | .observeUsed _ now => some now

end BucketCall

end Bowst.Venue
