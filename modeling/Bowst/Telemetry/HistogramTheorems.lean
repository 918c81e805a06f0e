/-
Bowst.Telemetry.HistogramTheorems — percentiles bracket the recorded values.

  §1 Buckets    — the bucket index and its inverse, over all of `u64`.
  §2 Ranks      — the rank of a percentile.
  §3 Contents   — what recording and merging keep.
  §4 Percentiles — the scan finds the bucket of the rank's value.
-/
import Mathlib.Data.Rat.Floor
import Mathlib.Tactic.FieldSimp
import Mathlib.Tactic.NormNum
import Bowst.Lib.Ranks
import Bowst.Telemetry.Histogram

namespace Bowst.Telemetry

open Bowst.Core Bowst.Lib

/-! ## §1 Buckets -/

theorem toNat_subBuckets : subBuckets.toNat = 32 := rfl

/-- The bucket of a value that has its highest bit at `shift + 5`. -/
theorem bucketOf_shift {value : UInt64} {shift : Nat} (h : ¬ value < subBuckets)
    (hlog : value.toNat.log2 = shift + 5) (hle : shift ≤ 58) (hlo : 32 ≤ value.toNat / 2 ^ shift)
    (hhi : value.toNat / 2 ^ shift < 64) :
    bucketOf value = (shift + 1) * 32 + (value.toNat / 2 ^ shift - 32) := by
  have hne : value ≠ 0 := by
    rintro rfl
    exact h (by decide)
  have hzeros : (leadingZeros value).toNat = 58 - shift := by
    rw [leadingZeros, if_neg hne, UInt32.toNat_ofNat_of_lt' (by rw [hlog, UInt32.size]; omega), hlog]
    omega
  have htop : (63 - leadingZeros value).toNat = shift + 5 := by
    rw [UInt32.toNat_sub_of_le _ _ (by rw [UInt32.le_iff_toNat_le, hzeros]; simp; omega), hzeros]
    simp
    omega
  have hshift : (63 - leadingZeros value - subBits).toNat = shift := by
    rw [UInt32.toNat_sub_of_le _ _ (by rw [UInt32.le_iff_toNat_le, htop]; simp [subBits]), htop]
    simp [subBits]
  have hgroup : ((63 - leadingZeros value - subBits + 1).toUInt64).toNat = shift + 1 := by
    rw [UInt32.toNat_toUInt64, UInt32.toNat_add, hshift]
    exact Nat.mod_eq_of_lt (show shift + 1 < 2 ^ 32 by omega)
  have hquot : (value >>> (63 - leadingZeros value - subBits).toUInt64).toNat =
      value.toNat / 2 ^ shift := by
    rw [UInt64.toNat_shiftRight, UInt32.toNat_toUInt64, hshift, Nat.mod_eq_of_lt (by omega),
      Nat.shiftRight_eq_div_pow]
  have hsub : ((value >>> (63 - leadingZeros value - subBits).toUInt64) - subBuckets).toNat =
      value.toNat / 2 ^ shift - 32 := by
    rw [UInt64.toNat_sub_of_le _ _ (by rw [UInt64.le_iff_toNat_le, hquot]; exact hlo), hquot]
    rfl
  rw [bucketOf, if_neg h]
  simp only [UInt64.toNat_add, UInt64.toNat_mul, hgroup, hsub, toNat_subBuckets]
  omega

/-- The values of a bucket above the exact ones: `sub` says which of the equal parts of
the values with the same highest bit. -/
theorem bucketOf_large {value : UInt64} (h : ¬ value < subBuckets) :
    ∃ shift sub, shift ≤ 58 ∧ sub < 32 ∧ value.toNat.log2 = shift + 5 ∧
      value.toNat / 2 ^ shift = 32 + sub ∧ bucketOf value = (shift + 1) * 32 + sub := by
  have hle : 32 ≤ value.toNat := not_lt.mp fun hlt => h (UInt64.lt_iff_toNat_lt.mpr hlt)
  have hne : value.toNat ≠ 0 := by omega
  have hlo : 5 ≤ value.toNat.log2 := (Nat.le_log2 hne).mpr hle
  have hhi : value.toNat.log2 < 64 := (Nat.log2_lt hne).mpr value.toNat_lt
  obtain ⟨shift, hshift⟩ : ∃ shift, value.toNat.log2 = shift + 5 := ⟨_, (Nat.sub_add_cancel hlo).symm⟩
  have hpow : 2 ^ value.toNat.log2 = 32 * 2 ^ shift := by rw [hshift, pow_add, Nat.mul_comm]; rfl
  have hge : 32 ≤ value.toNat / 2 ^ shift := by
    rw [Nat.le_div_iff_mul_le (by positivity), ← hpow]
    exact Nat.log2_self_le hne
  have hlt : value.toNat / 2 ^ shift < 64 := by
    have hself := Nat.lt_log2_self (n := value.toNat)
    rw [pow_succ, hpow] at hself
    rw [Nat.div_lt_iff_lt_mul (by positivity)]
    omega
  refine ⟨shift, value.toNat / 2 ^ shift - 32, by omega, by omega, hshift, by omega, ?_⟩
  exact bucketOf_shift h hshift (by omega) hge hlt

theorem bucketOf_small {value : UInt64} (h : value < subBuckets) : bucketOf value = value.toNat :=
  if_pos h

theorem bucketOf_lt (value : UInt64) : bucketOf value < buckets := by
  have hbuckets : buckets = 1920 := rfl
  by_cases h : value < subBuckets
  · have hlt : value.toNat < 32 := UInt64.lt_iff_toNat_lt.mp h
    rw [bucketOf_small h]
    omega
  · obtain ⟨shift, sub, hshift, hsub, -, -, hbucket⟩ := bucketOf_large h
    rw [hbucket]
    omega

/-- Larger values are in later buckets. -/
theorem bucketOf_mono {v w : UInt64} (hle : v.toNat ≤ w.toNat) : bucketOf v ≤ bucketOf w := by
  by_cases hw : w < subBuckets
  · have hv : v < subBuckets := UInt64.lt_iff_toNat_lt.mpr (lt_of_le_of_lt hle hw)
    rw [bucketOf_small hv, bucketOf_small hw]
    exact hle
  · obtain ⟨shift, sub, -, hsub, hlog, hquot, hbucket⟩ := bucketOf_large hw
    by_cases hv : v < subBuckets
    · have hlt : v.toNat < 32 := UInt64.lt_iff_toNat_lt.mp hv
      rw [bucketOf_small hv, hbucket]
      omega
    · obtain ⟨shift', sub', -, hsub', hlog', hquot', hbucket'⟩ := bucketOf_large hv
      have hlogs : v.toNat.log2 ≤ w.toNat.log2 := by
        have hvpos : v.toNat ≠ 0 := fun hzero => hv (UInt64.lt_iff_toNat_lt.mpr (by rw [hzero]; decide))
        rw [Nat.le_log2 (by omega)]
        exact le_trans (Nat.log2_self_le hvpos) hle
      rw [hbucket, hbucket']
      by_cases heq : shift' = shift
      · have hquots : v.toNat / 2 ^ shift ≤ w.toNat / 2 ^ shift := Nat.div_le_div_right hle
        rw [heq] at hquot' ⊢
        omega
      · have hstep : (shift' + 1) * 32 + 32 ≤ (shift + 1) * 32 := by omega
        omega

/-- The largest value of a value's bucket is not below the value, and above it by at
most a 32nd of the value. -/
theorem upperBound_bucketOf (value : UInt64) :
    value.toNat ≤ upperBound (bucketOf value) ∧
      upperBound (bucketOf value) ≤ value.toNat + value.toNat / 32 := by
  have hlt := bucketOf_lt value
  rw [upperBound, if_neg (by omega)]
  by_cases h : value < subBuckets
  · have hsmall : value.toNat < subBuckets.toNat := UInt64.lt_iff_toNat_lt.mp h
    rw [bucketOf_small h, if_pos hsmall]
    omega
  · obtain ⟨shift, sub, hshift, hsub, -, hquot, hbucket⟩ := bucketOf_large h
    have hgroup : bucketOf value / 32 = shift + 1 := by omega
    have hrem : bucketOf value % 32 = sub := by omega
    have hpos : 0 < 2 ^ shift := by positivity
    have hwidth : 2 ^ shift ≤ 2 ^ 58 := Nat.pow_le_pow_right (by decide) hshift
    have hlow : (32 + sub) * 2 ^ shift ≤ 63 * 2 ^ 58 :=
      Nat.mul_le_mul (by omega) hwidth
    -- The bucket is the range of values with this quotient.
    have hdiv := Nat.div_add_mod value.toNat (2 ^ shift)
    have hmod := Nat.mod_lt value.toNat hpos
    rw [hquot, Nat.mul_comm] at hdiv
    have hpart : 2 ^ shift ≤ value.toNat / 32 := by
      rw [Nat.le_div_iff_mul_le (by decide)]
      have hleft : 2 ^ shift * 32 ≤ (32 + sub) * 2 ^ shift := by
        rw [Nat.mul_comm]
        exact Nat.mul_le_mul_right _ (by omega)
      omega
    have hadd : saturatingAdd subBuckets.toNat sub = 32 + sub :=
      saturatingAdd_of_le (by rw [toNat_subBuckets]; unfold u64Max; omega)
    have hsum : saturatingAdd ((32 + sub) * 2 ^ shift) (2 ^ shift - 1) =
        (32 + sub) * 2 ^ shift + (2 ^ shift - 1) :=
      saturatingAdd_of_le (by unfold u64Max; omega)
    have hge : ¬ bucketOf value < subBuckets.toNat := by rw [toNat_subBuckets]; omega
    rw [if_neg hge]
    simp only [toNat_subBuckets, hgroup, hrem] at hadd ⊢
    rw [hadd, Nat.add_sub_cancel, checkedShl, checkedShl, if_pos (by omega), if_pos (by omega),
      Nat.one_mul, Nat.mod_eq_of_lt (by omega), Nat.mod_eq_of_lt (by omega)]
    simp only [hsum]
    omega

/-! ## §2 Ranks -/

theorem ceil_div (a : Nat) : ⌈(a : ℚ) / 10 ^ 6⌉₊ = (a + 999999) / 1000000 := by
  refine eq_of_forall_ge_iff fun k => ?_
  have hcast : (a : ℚ) ≤ k * 10 ^ 6 ↔ a ≤ k * 1000000 := by
    rw [← Nat.cast_le (α := ℚ)]
    push_cast
    norm_num
  rw [Nat.ceil_le, div_le_iff₀ (by norm_num), hcast]
  omega

/-- The rank of a percentile: the share rounded up, and at least 1. -/
theorem rankFor_eq {count ppm : Nat} (hcount : count ≤ u64Max) (hppm : ppm ≤ 10 ^ 6) :
    rankFor count ppm = max 1 ⌈(count * ppm : ℚ) / 10 ^ 6⌉₊ ∧
      (0 < count → rankFor count ppm ≤ count) := by
  have hprod : count * ppm ≤ count * 10 ^ 6 := Nat.mul_le_mul_left _ hppm
  have hceil := ceil_div (count * ppm)
  push_cast at hceil
  unfold u64Max at hcount
  have hscaled : min (count * ppm) (2 ^ 128 - 1) = count * ppm := by omega
  have hrank : (count * ppm + 999999) / 1000000 ≤ count := by omega
  rw [rankFor, hscaled, hceil, if_pos (by unfold u64Max; omega), max_comm]
  exact ⟨rfl, fun hpos => max_le hpos hrank⟩

/-! ## §3 Contents -/

/-- A histogram that recorded these values, some of them perhaps in other histograms
that were merged into it. -/
inductive Recorded : LatencyHistogram → List UInt64 → Prop
  | new : Recorded .new []
  | record {h : LatencyHistogram} {values : List UInt64} (nanos : UInt64) (hh : Recorded h values) :
      Recorded (h.record nanos) (values ++ [nanos])
  | merge {h h' : LatencyHistogram} {values values' : List UInt64} (hh : Recorded h values)
      (hh' : Recorded h' values') : Recorded (h.merge h') (values ++ values')

/-- The values as numbers. -/
def nanosOf (values : List UInt64) : List Nat := values.map UInt64.toNat

@[simp] theorem length_nanosOf (values : List UInt64) : (nanosOf values).length = values.length :=
  List.length_map ..

/-- What a histogram holds of the values recorded. -/
structure Holds (h : LatencyHistogram) (values : List UInt64) : Prop where
  counts : h.counts = (List.range buckets).map (inClass bucketOf values)
  count : h.count = values.length
  largest : h.max = (nanosOf values).foldr max 0
  smallest : h.min = (nanosOf values).foldr min u64Max

theorem counts_record (h : LatencyHistogram) (nanos : UInt64) :
    (h.record nanos).counts = h.counts.modify (bucketOf nanos) (saturatingAdd · 1) := rfl

theorem counts_merge (h other : LatencyHistogram) :
    (h.merge other).counts = List.zipWith saturatingAdd h.counts other.counts := rfl

theorem foldr_max_append (xs ys : List Nat) :
    (xs ++ ys).foldr max 0 = max (xs.foldr max 0) (ys.foldr max 0) := by
  induction xs with
  | nil => simp
  | cons x xs ih => simp only [List.cons_append, List.foldr_cons, ih, Nat.max_assoc]

theorem foldr_min_append (xs ys : List Nat) :
    (xs ++ ys).foldr min u64Max =
      min (xs.foldr min u64Max) (ys.foldr min u64Max) := by
  have hle : ys.foldr min u64Max ≤ u64Max := by
    cases ys with
    | nil => exact le_rfl
    | cons y ys =>
        clear * -
        induction ys generalizing y with
        | nil => exact Nat.min_le_right ..
        | cons z ys ih => exact le_trans (Nat.min_le_right ..) (ih z)
  induction xs with
  | nil => exact (Nat.min_eq_right hle).symm
  | cons x xs ih => simp only [List.cons_append, List.foldr_cons, ih, Nat.min_assoc]

theorem inClass_append (f : UInt64 → Nat) (xs ys : List UInt64) (i : Nat) :
    inClass f (xs ++ ys) i = inClass f xs i + inClass f ys i := List.countP_append

theorem inClass_le (f : UInt64 → Nat) (xs : List UInt64) (i : Nat) : inClass f xs i ≤ xs.length :=
  List.countP_le_length

theorem Holds.new : Holds .new [] where
  counts := by
    have hzero : inClass bucketOf [] = fun _ => 0 := rfl
    rw [hzero, List.map_const', List.length_range]
    rfl
  count := rfl
  largest := rfl
  smallest := rfl

theorem Holds.record {h : LatencyHistogram} {values : List UInt64} (hh : Holds h values)
    (hlen : values.length + 1 ≤ u64Max) (nanos : UInt64) :
    Holds (h.record nanos) (values ++ [nanos]) where
  counts := by
    refine List.ext_getElem? fun i => ?_
    have hle := inClass_le bucketOf values i
    rw [counts_record, hh.counts, List.getElem?_modify, List.getElem?_map,
      List.getElem?_map]
    by_cases hi : i < buckets
    · have hone : inClass bucketOf [nanos] i = if bucketOf nanos = i then 1 else 0 := by
        simp [inClass]
      rw [List.getElem?_range hi, Option.map_some, Option.map_some, inClass_append, hone]
      by_cases hbucket : bucketOf nanos = i
      · simp only [hbucket, if_true, Option.map_eq_map, Option.map_some]
        rw [saturatingAdd_of_le (by omega)]
      · simp [hbucket]
    · rw [List.getElem?_eq_none (by simpa using hi)]
      rfl
  count := by
    rw [LatencyHistogram.record, hh.count, List.length_append, List.length_singleton]
    exact saturatingAdd_of_le hlen
  largest := by
    rw [LatencyHistogram.record, hh.largest, nanosOf, nanosOf, List.map_append, foldr_max_append]
    simp
  smallest := by
    rw [LatencyHistogram.record, hh.smallest, nanosOf, nanosOf, List.map_append, foldr_min_append]
    have hlt : nanos.toNat ≤ u64Max := Nat.le_sub_one_of_lt nanos.toNat_lt
    simp [Nat.min_eq_left hlt]

theorem Holds.merge {h h' : LatencyHistogram} {values values' : List UInt64} (hh : Holds h values)
    (hh' : Holds h' values') (hlen : values.length + values'.length ≤ u64Max) :
    Holds (h.merge h') (values ++ values') where
  counts := by
    have hadd : ∀ i, saturatingAdd (inClass bucketOf values i) (inClass bucketOf values' i) =
        inClass bucketOf (values ++ values') i := by
      intro i
      have hle := inClass_le bucketOf values i
      have hle' := inClass_le bucketOf values' i
      rw [inClass_append, saturatingAdd_of_le (by omega)]
    rw [counts_merge, hh.counts, hh'.counts, List.zipWith_map, List.zipWith_self]
    exact List.map_congr_left fun i _ => hadd i
  count := by
    rw [LatencyHistogram.merge, hh.count, hh'.count, List.length_append]
    exact saturatingAdd_of_le hlen
  largest := by
    rw [LatencyHistogram.merge, hh.largest, hh'.largest, nanosOf, nanosOf, nanosOf, List.map_append,
      foldr_max_append]
  smallest := by
    rw [LatencyHistogram.merge, hh.smallest, hh'.smallest, nanosOf, nanosOf, nanosOf, List.map_append,
      foldr_min_append]

/-- Counts, and the extremes, are those of the values. -/
theorem Recorded.holds {h : LatencyHistogram} {values : List UInt64} (hh : Recorded h values) :
    values.length ≤ u64Max → Holds h values := by
  induction hh with
  | new => exact fun _ => .new
  | record nanos _ ih =>
      intro hlen
      rw [List.length_append, List.length_singleton] at hlen
      exact (ih (by omega)).record hlen nanos
  | merge _ _ ih ih' =>
      intro hlen
      rw [List.length_append] at hlen
      exact (ih (by omega)).merge (ih' (by omega)) hlen

/-! ## §4 Percentiles -/

section Scan

variable {α : Type} {f : α → Nat} {values : List α}

/-- The scan stops at the class up to which there are as many values as the rank. -/
theorem scanBuckets_spec (hlen : values.length ≤ u64Max) {rank target : Nat}
    (hlt : beforeClass f values target < rank) (hle : rank ≤ beforeClass f values (target + 1))
    (largest : Nat) :
    ∀ (len index : Nat), index ≤ target → target < index + len →
      scanBuckets rank largest (beforeClass f values index) index
        ((List.range' index len).map (inClass f values)) = min (upperBound target) largest := by
  intro len
  induction len with
  | zero => intro index hle' hlt'; omega
  | succ len ih =>
      intro index hle' hlt'
      have hsucc := beforeClass_succ f values index
      have hbound := beforeClass_le_length f values (index + 1)
      have hadd : saturatingAdd (beforeClass f values index) (inClass f values index) =
          beforeClass f values (index + 1) := by
        rw [hsucc]
        exact saturatingAdd_of_le (by omega)
      rw [List.range'_succ, List.map_cons, scanBuckets, hadd]
      by_cases hstop : index = target
      · rw [hstop, if_pos hle]
      · have hmono := beforeClass_mono f values (show index + 1 ≤ target by omega)
        rw [if_neg (by omega)]
        exact ih (index + 1) (by omega) (by omega)

end Scan

/-- The bucket of a number of nanoseconds. -/
def bucketOfNanos (nanos : Nat) : Nat := bucketOf (UInt64.ofNat nanos)

theorem bucketOfNanos_toNat (value : UInt64) : bucketOfNanos value.toNat = bucketOf value := by
  rw [bucketOfNanos, UInt64.ofNat_toNat]

theorem inClass_nanosOf (values : List UInt64) :
    inClass bucketOfNanos (nanosOf values) = inClass bucketOf values := by
  funext i
  rw [inClass, nanosOf, List.countP_map]
  refine List.countP_congr fun v _ => ?_
  simp [bucketOfNanos_toNat]

theorem bucketOfNanos_monotoneOn (values : List UInt64) :
    MonotoneOn bucketOfNanos {v | v ∈ nanosOf values} := by
  intro v hv w hw hvw
  obtain ⟨v', -, rfl⟩ := List.mem_map.mp hv
  obtain ⟨w', -, rfl⟩ := List.mem_map.mp hw
  rw [bucketOfNanos_toNat, bucketOfNanos_toNat]
  exact bucketOf_mono hvw

/-- The percentile of the rank of a value. -/
theorem Holds.valueAtPpm {h : LatencyHistogram} {values : List UInt64} (hh : Holds h values)
    (hne : values ≠ []) (hlen : values.length ≤ u64Max) (ppm : UInt32) {sorted : List Nat} {x : Nat}
    (hperm : sorted.Perm (nanosOf values)) (hsorted : sorted.Pairwise (· ≤ ·))
    (hx : sorted[rankFor values.length (min ppm.toNat (10 ^ 6)) - 1]? = some x) :
    h.valueAtPpm ppm = min (upperBound (bucketOfNanos x)) h.max := by
  have hpos : 0 < values.length := List.length_pos_iff.mpr hne
  obtain ⟨heq, -⟩ := rankFor_eq hlen (Nat.min_le_right ppm.toNat (10 ^ 6))
  have hrank : 1 ≤ rankFor values.length (min ppm.toNat (10 ^ 6)) := by
    rw [heq]
    exact Nat.le_max_left ..
  obtain ⟨hlt, hle⟩ := class_of_rank (bucketOfNanos_monotoneOn values) hperm hsorted hx
  have hmem : x ∈ nanosOf values := hperm.mem_iff.mp (List.mem_of_getElem? hx)
  have htarget : bucketOfNanos x < 0 + buckets := by
    obtain ⟨v, -, rfl⟩ := List.mem_map.mp hmem
    rw [bucketOfNanos_toNat, Nat.zero_add]
    exact bucketOf_lt v
  have hfits : (nanosOf values).length ≤ u64Max := by rw [length_nanosOf]; exact hlen
  have hbefore : beforeClass bucketOfNanos (nanosOf values) (bucketOfNanos x) <
      rankFor values.length (min ppm.toNat (10 ^ 6)) := by omega
  have hscan := scanBuckets_spec hfits hbefore (by omega) h.max buckets 0 (Nat.zero_le _) htarget
  rw [beforeClass_zero, inClass_nanosOf, ← List.range_eq_range'] at hscan
  rw [LatencyHistogram.valueAtPpm, hh.count, if_neg (by omega), hh.counts]
  exact hscan

theorem le_foldr_max : ∀ (xs : List Nat), ∀ x ∈ xs, x ≤ xs.foldr max 0 := by
  intro xs
  induction xs with
  | nil => intro x hx; cases hx
  | cons y ys ih =>
      intro x hx
      rcases List.mem_cons.mp hx with rfl | hx
      · exact Nat.le_max_left ..
      · exact le_trans (ih x hx) (Nat.le_max_right ..)

theorem foldr_min_le : ∀ (xs : List Nat), ∀ x ∈ xs, xs.foldr min u64Max ≤ x := by
  intro xs
  induction xs with
  | nil => intro x hx; cases hx
  | cons y ys ih =>
      intro x hx
      rcases List.mem_cons.mp hx with rfl | hx
      · exact Nat.min_le_left ..
      · exact le_trans (Nat.min_le_right ..) (ih x hx)

/-- An operation that picks one of two picks an element, or what it began with. -/
theorem foldr_mem {op : Nat → Nat → Nat} (hop : ∀ a b, op a b = a ∨ op a b = b) (b : Nat) :
    ∀ xs : List Nat, xs.foldr op b = b ∨ xs.foldr op b ∈ xs := by
  intro xs
  induction xs with
  | nil => exact .inl rfl
  | cons x xs ih =>
      rw [List.foldr_cons]
      rcases hop x (xs.foldr op b) with heq | heq
      · rw [heq]
        exact .inr List.mem_cons_self
      · rw [heq]
        exact ih.imp_right (List.mem_cons_of_mem x)

theorem Holds.extremes {h : LatencyHistogram} {values : List UInt64} (hh : Holds h values)
    (hne : values ≠ []) (hlen : values.length ≤ u64Max) :
    (nanosOf values).min? = some h.smallest ∧ (nanosOf values).max? = some h.max := by
  obtain ⟨v, rest, rfl⟩ := List.exists_cons_of_ne_nil hne
  have hv : v.toNat ∈ nanosOf (v :: rest) := List.mem_cons_self
  have hcount : h.count ≠ 0 := by simp [hh.count]
  have hlo := foldr_min_le (nanosOf (v :: rest))
  have hhi := le_foldr_max (nanosOf (v :: rest))
  constructor
  · rw [LatencyHistogram.smallest, if_neg hcount, hh.smallest, List.min?_eq_some_iff]
    refine ⟨?_, hlo⟩
    rcases foldr_mem (fun a b => min_choice a b) u64Max (nanosOf (v :: rest)) with heq | hmem
    · have hfits : v.toNat ≤ u64Max := Nat.le_sub_one_of_lt v.toNat_lt
      have hle := hlo _ hv
      have hself : u64Max = v.toNat := by omega
      rw [heq, hself]
      exact hv
    · exact hmem
  · rw [hh.largest, List.max?_eq_some_iff]
    refine ⟨?_, hhi⟩
    rcases foldr_mem (fun a b => max_choice a b) 0 (nanosOf (v :: rest)) with heq | hmem
    · have hle := hhi _ hv
      have hself : 0 = v.toNat := by omega
      rw [heq, hself]
      exact hv
    · exact hmem

/-- **Percentiles bracket the truth.** Of any values, split in any way over histograms
that were merged in any order: a percentile is not below the value of its rank, and
above it by at most a 32nd and never above the largest value; the count and the
extremes are exact. -/
theorem percentiles_bracket_recorded_values {h : LatencyHistogram} {recorded values : List UInt64}
    (hrecorded : Recorded h recorded) (hperm : recorded.Perm values) (hne : values ≠ [])
    (hlen : values.length < 2 ^ 64) (ppm : UInt32) :
    h.count = values.length ∧ (nanosOf values).min? = some h.smallest ∧
      (nanosOf values).max? = some h.max ∧
      ∃ x, ((nanosOf values).mergeSort)[
          max 1 ⌈(values.length * min ppm.toNat (10 ^ 6) : ℚ) / 10 ^ 6⌉₊ - 1]? = some x ∧
        x ≤ h.valueAtPpm ppm ∧ h.valueAtPpm ppm ≤ min h.max (x + x / 32) := by
  have hfits : values.length ≤ u64Max := Nat.le_sub_one_of_lt hlen
  have hsize : recorded.length = values.length := hperm.length_eq
  have hrne : recorded ≠ [] := by
    rintro rfl
    exact hne (List.nil_perm.mp hperm)
  have hh := hrecorded.holds (by omega)
  have hnanos : (nanosOf recorded).Perm (nanosOf values) := hperm.map _
  obtain ⟨hmin, hmax⟩ := hh.extremes hrne (by omega)
  have hminmem := List.min?_eq_some_iff.mp hmin
  have hmaxmem := List.max?_eq_some_iff.mp hmax
  refine ⟨by rw [hh.count, hsize], ?_, ?_, ?_⟩
  · exact List.min?_eq_some_iff.mpr
      ⟨hnanos.mem_iff.mp hminmem.1, fun y hy => hminmem.2 y (hnanos.mem_iff.mpr hy)⟩
  · exact List.max?_eq_some_iff.mpr
      ⟨hnanos.mem_iff.mp hmaxmem.1, fun y hy => hmaxmem.2 y (hnanos.mem_iff.mpr hy)⟩
  · obtain ⟨hrank, hle⟩ := rankFor_eq hfits (Nat.min_le_right ppm.toNat (10 ^ 6))
    have hbound := hle (List.length_pos_iff.mpr hne)
    have hin : rankFor values.length (min ppm.toNat (10 ^ 6)) - 1 <
        ((nanosOf values).mergeSort).length := by
      rw [List.length_mergeSort, length_nanosOf]
      have hpos : 0 < values.length := List.length_pos_iff.mpr hne
      omega
    obtain ⟨x, hx⟩ : ∃ x, ((nanosOf values).mergeSort)[
        rankFor values.length (min ppm.toNat (10 ^ 6)) - 1]? = some x :=
      ⟨_, List.getElem?_eq_getElem hin⟩
    rw [← hrank]
    refine ⟨x, hx, ?_⟩
    have hsorted : ((nanosOf values).mergeSort).Perm (nanosOf recorded) :=
      (List.mergeSort_perm ..).trans hnanos.symm
    obtain ⟨v, hv, rfl⟩ := List.mem_map.mp (hsorted.mem_iff.mp (List.mem_of_getElem? hx))
    obtain ⟨hlo, hhi⟩ := upperBound_bucketOf v
    have hle_max : v.toNat ≤ h.max := hmaxmem.2 _ (List.mem_map_of_mem hv)
    rw [hh.valueAtPpm hrne (by omega) ppm hsorted (List.pairwise_mergeSort' (· ≤ ·) _)
      (by rw [hsize]; exact hx), bucketOfNanos_toNat]
    exact ⟨le_min hlo hle_max, le_min (Nat.min_le_right ..) (le_trans (Nat.min_le_left ..) hhi)⟩

/-- Two histograms with three values, the larger two in one bucket: the median. -/
theorem percentiles_bracket_recorded_values_merged :
    1000 ≤ ((LatencyHistogram.new.record 1001).merge
      ((LatencyHistogram.new.record 7).record 1000)).valueAtPpm 500000 := by
  have hperm : ([1001] ++ [7, 1000] : List UInt64).Perm [7, 1000, 1001] := by decide
  obtain ⟨-, -, -, x, hx, hlo, -⟩ := percentiles_bracket_recorded_values
    (.merge (.record 1001 .new) (.record 1000 (.record 7 .new))) hperm (by decide) (by decide) 500000
  have hrank : max 1 ⌈(([7, 1000, 1001] : List UInt64).length *
      ((min (500000 : UInt32).toNat (10 ^ 6) : Nat) : ℚ)) / 10 ^ 6⌉₊ - 1 = 1 := by
    have hceil : ⌈(3 * 500000 : ℚ) / 10 ^ 6⌉₊ = 2 := by
      rw [Nat.ceil_eq_iff (by decide)]
      norm_num
    simp [hceil]
  have hsorted : ((nanosOf [7, 1000, 1001]).mergeSort)[1]? = some 1000 := by
    rw [List.mergeSort_of_pairwise (by decide)]
    rfl
  rw [hrank, hsorted] at hx
  rw [Option.some.inj hx]
  exact hlo

end Bowst.Telemetry
