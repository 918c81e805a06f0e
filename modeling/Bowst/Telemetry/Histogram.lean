/-
Bowst.Telemetry.Histogram — the log-linear latency histogram
(`bowst-telemetry/src/histogram.rs`).

Values are `u64`s. Counters are saturating integers: `Nat` with an explicit bound.
A `usize` has 64 bits, so no conversion between `usize` and `u64` fails.
-/
import Bowst.Core.Units

namespace Bowst.Telemetry

open Bowst.Core

/-- Sub-buckets per power of two, as a power of two. -/
def subBits : UInt32 := 5

/-- Sub-buckets per power of two. Also the number of values counted exactly. -/
def subBuckets : UInt64 := 1 <<< subBits.toUInt64

/-- Groups: one exact group, then one per power of two from `2^5` to `2^63`. -/
def groups : Nat := 60

/-- Total buckets. -/
def buckets : Nat := groups * 32

/-- `u64::leading_zeros`. -/
def leadingZeros (value : UInt64) : UInt32 :=
  if value = 0 then 64 else UInt32.ofNat (63 - value.toNat.log2)

/-- Bucket index of a value. -/
def bucketOf (value : UInt64) : Nat :=
  if value < subBuckets then value.toNat
  else
    let top := 63 - leadingZeros value
    let shift := top - subBits
    let group := (shift + 1).toUInt64
    let sub := (value >>> shift.toUInt64) - subBuckets
    (group * subBuckets + sub).toNat

/-- `u64::checked_shl`. -/
def checkedShl (value shift : Nat) : Option Nat :=
  if shift < 64 then some (value * 2 ^ shift % 2 ^ 64) else none

/-- Largest value that falls in bucket `index`. -/
def upperBound (index : Nat) : Nat :=
  if index ≥ buckets then u64Max
  else if index < subBuckets.toNat then index
  else
    let group := index / subBuckets.toNat
    let sub := index % subBuckets.toNat
    let shift := group - 1
    match checkedShl (saturatingAdd subBuckets.toNat sub) shift, checkedShl 1 shift with
    | some low, some width => saturatingAdd low (width - 1)
    | _, _ => u64Max

/-- The 1-based rank of the value at `ppm` parts per million of `count` values. -/
def rankFor (count ppm : Nat) : Nat :=
  let scaled := min (count * ppm) (2 ^ 128 - 1)
  let rank := (scaled + 999999) / 1000000
  max (if rank ≤ u64Max then rank else u64Max) 1

/-- Durations in nanoseconds, bucketed for percentiles. -/
structure LatencyHistogram where
  counts : List Nat
  count : Nat
  sum : Nat
  max : Nat
  min : Nat
  length_counts : counts.length = buckets
  deriving Repr

/-- Percentiles and extremes of a histogram. -/
structure LatencySummary where
  count : Nat
  sum : Nat
  min : Nat
  p50 : Nat
  p90 : Nat
  p99 : Nat
  p999 : Nat
  max : Nat
  deriving DecidableEq, Repr

/-- The loop of `value_at_ppm`, over the buckets from `index` on. -/
def scanBuckets (rank largest : Nat) : Nat → Nat → List Nat → Nat
  | _, _, [] => largest
  | seen, index, n :: rest =>
      if saturatingAdd seen n ≥ rank then min (upperBound index) largest
      else scanBuckets rank largest (saturatingAdd seen n) (index + 1) rest

namespace LatencyHistogram

/-- An empty histogram. -/
def new : LatencyHistogram where
  counts := List.replicate buckets 0
  count := 0
  sum := 0
  max := 0
  min := u64Max
  length_counts := List.length_replicate

/-- Records one value. -/
def record (h : LatencyHistogram) (nanos : UInt64) : LatencyHistogram where
  counts := h.counts.modify (bucketOf nanos) (saturatingAdd · 1)
  count := saturatingAdd h.count 1
  sum := saturatingAdd h.sum nanos.toNat
  max := Max.max h.max nanos.toNat
  min := Min.min h.min nanos.toNat
  length_counts := by rw [List.length_modify, h.length_counts]

/-- Smallest value recorded, or 0 if empty: the method `min`. -/
def smallest (h : LatencyHistogram) : Nat := if h.count = 0 then 0 else h.min

/-- The value at `ppm` parts per million, 0 if empty. -/
def valueAtPpm (h : LatencyHistogram) (ppm : UInt32) : Nat :=
  if h.count = 0 then 0
  else scanBuckets (rankFor h.count (Min.min ppm.toNat 1000000)) h.max 0 0 h.counts

/-- Standard percentiles and extremes. -/
def summary (h : LatencyHistogram) : LatencySummary where
  count := h.count
  sum := h.sum
  min := h.smallest
  p50 := h.valueAtPpm 500000
  p90 := h.valueAtPpm 900000
  p99 := h.valueAtPpm 990000
  p999 := h.valueAtPpm 999000
  max := h.max

/-- Adds every value recorded in `other`. -/
def merge (h other : LatencyHistogram) : LatencyHistogram where
  counts := List.zipWith saturatingAdd h.counts other.counts
  count := saturatingAdd h.count other.count
  sum := saturatingAdd h.sum other.sum
  max := Max.max h.max other.max
  min := Min.min h.min other.min
  length_counts := by rw [List.length_zipWith, h.length_counts, other.length_counts, Nat.min_self]

/-- Forgets every value. -/
def reset (h : LatencyHistogram) : LatencyHistogram where
  counts := h.counts.map fun _ => 0
  count := 0
  sum := 0
  max := 0
  min := u64Max
  length_counts := by rw [List.length_map, h.length_counts]

end LatencyHistogram

end Bowst.Telemetry
