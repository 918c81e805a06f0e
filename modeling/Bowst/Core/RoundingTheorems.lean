/-
Bowst.Core.RoundingTheorems — `to_units` against division of rational numbers.

The quotient of a value and an increment is a fraction of two integers at one
scale. Where both fit an `i128` the code divides them exactly; where one does not,
the code reports an overflow, which is right only if the quotient is too large.

  §1 Quotient — the two numbers and the fraction of integers.
  §2 Division — the code's division, rounding and narrowing.
  §3 Overflow — what happens when a rescaled number does not fit.
  §4 Rounding — when `to_units` rounds the quotient exactly.
-/
import Mathlib.Data.Rat.Floor
import Bowst.Core.DecimalTheorems

namespace Bowst.Core

open Bowst.Lib

/-! ## §1 Quotient -/

/-- The integer a quotient is rounded to, if this rounding has one. -/
def Rounding.whole (rounding : Rounding) (x : ℚ) : Except FixedError Int :=
  match rounding with
  | .down => .ok ⌊x⌋
  | .up => .ok ⌈x⌉
  | .exact => if x = ⌊x⌋ then .ok ⌊x⌋ else .error .notMultiple

/-- A whole number of increments, if it fits. -/
def inUnits (whole : Int) : Except FixedError I64 := okOr (Bounded.ofInt? whole) .overflow

namespace Increment

/-- What `to_units` is for: the quotient of the two numbers, rounded, in 64 bits. -/
def RoundsExactly (q : Increment) (value : Dec) (rounding : Rounding) : Prop :=
  q.toUnits value rounding = (rounding.whole (value.toRat / q.toRat) >>= inUnits)

/-- A fraction of integers, the denominator positive, has its quotient for a floor
and is whole if the division is. -/
theorem floor_div {n d : Int} (hd : 0 < d) : ⌊(n : ℚ) / d⌋ = n / d := by
  have hpos : (0 : ℚ) < d := by exact_mod_cast hd
  rw [Int.floor_eq_iff, le_div_iff₀ hpos, div_lt_iff₀ hpos]
  constructor
  · exact_mod_cast Int.ediv_mul_le n (ne_of_gt hd)
  · exact_mod_cast Int.lt_ediv_add_one_mul_self n hd

theorem whole_iff {n d : Int} (hd : 0 < d) : (n : ℚ) / d = ⌊(n : ℚ) / d⌋ ↔ d ∣ n := by
  have hne : (d : ℚ) ≠ 0 := by exact_mod_cast ne_of_gt hd
  rw [floor_div hd, div_eq_iff hne]
  constructor
  · intro h
    exact ⟨n / d, by rw [mul_comm]; exact_mod_cast h⟩
  · intro h
    exact_mod_cast (Int.ediv_mul_cancel h).symm

theorem ceil_div {n d : Int} (hd : 0 < d) : ⌈(n : ℚ) / d⌉ = if d ∣ n then n / d else n / d + 1 := by
  have hfloor := floor_div (n := n) hd
  by_cases hdvd : d ∣ n
  · rw [if_pos hdvd, (whole_iff hd).mpr hdvd, Int.ceil_intCast, hfloor]
  · have hne : (⌊(n : ℚ) / d⌋ : ℚ) ≠ n / d := fun h => hdvd ((whole_iff hd).mp h.symm)
    have hlt := lt_of_le_of_ne (Int.floor_le ((n : ℚ) / d)) hne
    have hnext := Int.lt_floor_add_one ((n : ℚ) / d)
    rw [if_neg hdvd, Int.ceil_eq_iff, ← hfloor]
    push_cast
    constructor <;> linarith

theorem whole_down {n d : Int} (hd : 0 < d) : Rounding.down.whole ((n : ℚ) / d) = .ok (n / d) := by
  rw [Rounding.whole, floor_div hd]

theorem whole_up {n d : Int} (hd : 0 < d) :
    Rounding.up.whole ((n : ℚ) / d) = .ok (if d ∣ n then n / d else n / d + 1) := by
  rw [Rounding.whole, ceil_div hd]

theorem whole_exact {n d : Int} (hd : 0 < d) : Rounding.exact.whole ((n : ℚ) / d) =
    if d ∣ n then .ok (n / d) else .error .notMultiple := by
  by_cases hdvd : d ∣ n
  · rw [Rounding.whole, if_pos ((whole_iff hd).mpr hdvd), if_pos hdvd, floor_div hd]
  · rw [Rounding.whole, if_neg (fun h => hdvd ((whole_iff hd).mp h)), if_neg hdvd]

/-- The quotient of the two numbers is the fraction of the two integers. -/
theorem toRat_div (q : Increment) (value : Dec) :
    value.toRat / q.toRat = q.numerator value / q.denominator value := by
  have hpow : (10 : ℚ) ^ max value.scale q.scale ≠ 0 := by positivity
  have hvalue := Dec.toRat_scaledTo (d := value) (le_max_left value.scale q.scale)
  have hincrement := Dec.toRat_scaledTo (d := q.asDec) (le_max_right value.scale q.scale)
  rw [hvalue, show q.toRat = q.asDec.toRat from rfl, hincrement, div_div_div_cancel_right₀ hpow]
  rfl

/-! ## §2 Division -/

/-- Rounding a floor and narrowing it is rounding the fraction. -/
theorem toWhole_eq {n d : Int} (hd : 0 < d) {floor : I128} (hfloor : floor.val = n / d)
    (rounding : Rounding) :
    toWhole floor (decide (n % d = 0)) rounding = (rounding.whole ((n : ℚ) / d) >>= inUnits) := by
  have hexact : n % d = 0 ↔ d ∣ n := (Int.dvd_iff_emod_eq_zero ..).symm
  have hcast : okOr (floor.cast? : Option I64) .overflow = inUnits (n / d) := by
    rw [inUnits, ← hfloor]
    rfl
  by_cases hdvd : d ∣ n
  · -- A whole quotient is its own rounding.
    have hwhole : rounding.whole ((n : ℚ) / d) = .ok (n / d) := by
      cases rounding with
      | down => rw [whole_down hd]
      | up => rw [whole_up hd, if_pos hdvd]
      | exact => rw [whole_exact hd, if_pos hdvd]
    have hround : roundQuotient floor true rounding = .ok floor := by cases rounding <;> rfl
    rw [toWhole, decide_eq_true (hexact.mpr hdvd), hround, hwhole]
    exact hcast
  · rw [toWhole, decide_eq_false (fun h => hdvd (hexact.mp h))]
    cases rounding with
    | down =>
        rw [whole_down hd]
        exact hcast
    | up =>
        rw [whole_up hd, if_neg hdvd, ← hfloor]
        show (okOr (floor.checkedAdd (I128.ofByte 1)) .overflow >>= fun units =>
          okOr (units.cast? : Option I64) .overflow) = inUnits (floor.val + 1)
        -- One more than the floor is out of both ranges or in the wider one.
        cases hadd : floor.checkedAdd (I128.ofByte 1) with
        | some next =>
            have hnext : next.val = floor.val + 1 := Bounded.ofInt?_eq_some_iff.mp hadd
            rw [inUnits, ← hnext]
            rfl
        | none =>
            have hwide : ¬ (-2 ^ 127 ≤ floor.val + 1 ∧ floor.val + 1 ≤ 2 ^ 127 - 1) :=
              Bounded.ofInt?_eq_none_iff.mp hadd
            have hnarrow : (Bounded.ofInt? (floor.val + 1) : Option I64) = none :=
              Bounded.ofInt?_eq_none_iff.mpr (by omega)
            rw [inUnits, hnarrow]
            rfl
    | exact =>
        rw [whole_exact hd, if_neg hdvd]
        rfl

/-- With room for both rescaled numbers, `to_units` rounds exactly. -/
theorem roundsExactly_of_fits {q : Increment} {value : Dec}
    (hnum : -2 ^ 127 ≤ q.numerator value ∧ q.numerator value ≤ 2 ^ 127 - 1)
    (hden : q.denominator value ≤ 2 ^ 127 - 1) (rounding : Rounding) :
    q.RoundsExactly value rounding := by
  obtain ⟨floor, hfloor, hunits⟩ := q.toUnits_eq_toWhole value rounding hnum hden
  rw [RoundsExactly, hunits, toRat_div]
  exact toWhole_eq (q.denominator_pos value) hfloor rounding

/-! ## §3 Overflow -/

end Increment

theorem Dec.mantissaAt_overflow {d : Dec} {scale : Nat} (hle : d.scale ≤ scale)
    (hscale : scale ≤ maxScale) (h : ¬ (-2 ^ 127 ≤ d.mantissa.val * 10 ^ (scale - d.scale) ∧
      d.mantissa.val * 10 ^ (scale - d.scale) ≤ 2 ^ 127 - 1)) :
    d.mantissaAt scale = .error .overflow := by
  obtain ⟨p, hval, hproduct⟩ := d.mantissaAt_eq_mul hle hscale
  have hmul : d.mantissa.checkedMul p = none := by
    rw [← hval] at h
    exact Bounded.ofInt?_eq_none_iff.mpr h
  rw [hproduct, hmul]
  rfl

namespace Increment

/-- The two numbers at one scale fit the wide type. -/
def Rescaled (q : Increment) (value : Dec) : Prop :=
  (-2 ^ 127 ≤ q.numerator value ∧ q.numerator value ≤ 2 ^ 127 - 1) ∧
    q.denominator value ≤ 2 ^ 127 - 1

/-- Without room for a rescaled number, the answer is an overflow. -/
theorem toUnits_overflow {q : Increment} {value : Dec} (h : ¬ q.Rescaled value)
    (rounding : Rounding) : q.toUnits value rounding = .error .overflow := by
  have hmax : max value.scale q.scale ≤ maxScale :=
    max_le value.scale_le (le_trans q.scale_le (by decide))
  have hpos := q.denominator_pos value
  have hnarrow : q.rescaledI64 value (max value.scale q.scale) = none := by
    by_contra hsome
    obtain ⟨⟨n, d⟩, hpair⟩ := Option.ne_none_iff_exists'.mp hsome
    obtain ⟨hn, hd⟩ := rescaledI64_spec hpair
    have h1 := n.lo_le
    have h2 := n.le_hi
    have h3 := d.le_hi
    exact h ⟨⟨by omega, by omega⟩, by omega⟩
  unfold toUnits
  simp only [hnarrow]
  by_cases hnum : -2 ^ 127 ≤ q.numerator value ∧ q.numerator value ≤ 2 ^ 127 - 1
  · have hden : ¬ (-2 ^ 127 ≤ q.denominator value ∧ q.denominator value ≤ 2 ^ 127 - 1) :=
      fun hden => h ⟨hnum, hden.2⟩
    have hn : value.mantissaAt (max value.scale q.scale) = .ok ⟨q.numerator value, hnum.1, hnum.2⟩ :=
      Dec.mantissaAt_of_fits (le_max_left ..) hmax rfl
    have hd : q.asDec.mantissaAt (max value.scale q.scale) = .error .overflow :=
      Dec.mantissaAt_overflow (d := q.asDec) (le_max_right ..) hmax hden
    simp only [hn, hd, bind, Except.bind]
  · have hn : value.mantissaAt (max value.scale q.scale) = .error .overflow :=
      Dec.mantissaAt_overflow (le_max_left ..) hmax hnum
    simp only [hn, bind, Except.bind]

/-- Only one of the two numbers is multiplied. -/
theorem rescaled_one (q : Increment) (value : Dec) :
    q.numerator value = value.mantissa.val ∨ q.denominator value = q.mantissa.val := by
  rcases le_total value.scale q.scale with hle | hle
  · exact .inr (by simp [denominator, max_eq_right hle])
  · exact .inl (by simp [numerator, max_eq_left hle])

/-- A denominator too large for 128 bits is no power of two, so the quotient is
inside minus one and one. -/
theorem quotient_small {q : Increment} {value : Dec} (h : ¬ q.denominator value ≤ 2 ^ 127 - 1) :
    |q.numerator value| < q.denominator value := by
  have hlo := value.mantissa.lo_le
  have hhi := value.mantissa.le_hi
  have hq := q.mantissa.le_hi
  have hnum : q.numerator value = value.mantissa.val :=
    (q.rescaled_one value).resolve_right fun hden => h (by omega)
  rw [hnum, abs_lt]
  refine ⟨?_, by omega⟩
  by_contra hle
  -- Only `-2^127` over `2^127` would be left, and ten divides the denominator.
  have heq : q.denominator value = 2 ^ 127 := by omega
  have hscaled : max value.scale q.scale - q.scale ≠ 0 := by
    intro hzero
    rw [denominator, hzero, pow_zero, mul_one] at heq
    omega
  have hten : (10 : Int) ∣ 2 ^ 127 := by
    rw [← heq, denominator]
    exact Dvd.dvd.mul_left (dvd_pow_self 10 hscaled) _
  norm_num at hten

/-- A numerator too large for 128 bits makes the quotient too large for 64. -/
theorem quotient_large {q : Increment} {value : Dec}
    (h : ¬ (-2 ^ 127 ≤ q.numerator value ∧ q.numerator value ≤ 2 ^ 127 - 1)) :
    ∀ whole : Int, q.numerator value / q.denominator value ≤ whole →
      whole ≤ q.numerator value / q.denominator value + 1 →
      inUnits whole = .error .overflow := by
  intro whole hge hle
  have hlo := value.mantissa.lo_le
  have hhi := value.mantissa.le_hi
  have hq := q.mantissa.le_hi
  have hpos := q.denominator_pos value
  have hden : q.denominator value = q.mantissa.val :=
    (q.rescaled_one value).resolve_left fun hnum => h (by omega)
  rw [hden] at hge hle hpos
  have hnone : (Bounded.ofInt? whole : Option I64) = none := by
    refine Bounded.ofInt?_eq_none_iff.mpr fun ⟨hmin, hmax⟩ => ?_
    have hfloor := Int.ediv_mul_le (q.numerator value) (ne_of_gt hpos)
    have hnext := Int.lt_ediv_add_one_mul_self (q.numerator value) hpos
    -- The quotient is within one of a 64-bit number, and the increment is one.
    have hup : (q.numerator value / q.mantissa.val + 1) * q.mantissa.val ≤ 2 ^ 63 * 2 ^ 63 :=
      mul_le_mul (by omega) (by omega) (le_of_lt hpos) (by norm_num)
    have hdown : (-2 ^ 63 - 1) * q.mantissa.val ≤
        q.numerator value / q.mantissa.val * q.mantissa.val :=
      mul_le_mul_of_nonneg_right (by omega) (le_of_lt hpos)
    omega
  rw [inUnits, hnone]
  rfl

/-! ## §4 Rounding -/

/-- When the exact quotient is returned: the increment at the value's scale fits an
`i128`; and where an inexact quotient is to be refused, so does the value at the
increment's scale. -/
def RescalesFor (q : Increment) (value : Dec) (rounding : Rounding) : Prop :=
  q.denominator value ≤ 2 ^ 127 - 1 ∧
    (rounding = .exact → ¬ q.denominator value ∣ q.numerator value →
      -2 ^ 127 ≤ q.numerator value ∧ q.numerator value ≤ 2 ^ 127 - 1)

instance (q : Increment) (value : Dec) (rounding : Rounding) :
    Decidable (q.RescalesFor value rounding) := by
  unfold RescalesFor
  infer_instance

/-- A quotient inside minus one and one is no overflow. -/
theorem whole_small {n d : Int} (h : |n| < d) (rounding : Rounding) :
    (rounding.whole ((n : ℚ) / d) >>= inUnits) ≠ .error .overflow := by
  obtain ⟨hlo, hhi⟩ := abs_lt.mp h
  have hd : 0 < d := by omega
  have hfloor : -1 ≤ n / d ∧ n / d ≤ 0 := by
    constructor
    · rw [Int.le_ediv_iff_mul_le hd]
      omega
    · have := Int.ediv_lt_of_lt_mul hd (show n < 1 * d by omega)
      omega
  have hunits : ∀ whole : Int, -1 ≤ whole → whole ≤ 1 → inUnits whole ≠ .error .overflow := by
    intro whole hmin hmax
    have hfits : -2 ^ 63 ≤ whole ∧ whole ≤ 2 ^ 63 - 1 := by omega
    rw [inUnits, Bounded.ofInt?_of_mem hfits]
    simp [okOr]
  cases rounding with
  | down =>
      rw [whole_down hd]
      exact hunits _ (by omega) (by omega)
  | up =>
      rw [whole_up hd]
      exact hunits _ (by split_ifs <;> omega) (by split_ifs <;> omega)
  | exact =>
      rw [whole_exact hd]
      split_ifs
      · exact hunits _ (by omega) (by omega)
      · simp [bind, Except.bind]

theorem roundsExactly_iff (q : Increment) (value : Dec) (rounding : Rounding) :
    q.RoundsExactly value rounding ↔ q.RescalesFor value rounding := by
  have hpos := q.denominator_pos value
  by_cases hden : q.denominator value ≤ 2 ^ 127 - 1
  · by_cases hnum : -2 ^ 127 ≤ q.numerator value ∧ q.numerator value ≤ 2 ^ 127 - 1
    · exact ⟨fun _ => ⟨hden, fun _ _ => hnum⟩, fun _ => roundsExactly_of_fits hnum hden rounding⟩
    · have hlarge := quotient_large hnum
      rw [RoundsExactly, toUnits_overflow (fun h => hnum h.1), toRat_div]
      cases rounding with
      | down =>
          rw [whole_down hpos]
          exact ⟨fun _ => ⟨hden, nofun⟩, fun _ => (hlarge _ le_rfl (by omega)).symm⟩
      | up =>
          rw [whole_up hpos]
          refine ⟨fun _ => ⟨hden, nofun⟩, fun _ => (hlarge _ ?_ ?_).symm⟩
          all_goals split_ifs <;> omega
      | exact =>
          rw [whole_exact hpos]
          by_cases hdvd : q.denominator value ∣ q.numerator value
          · rw [if_pos hdvd]
            exact ⟨fun _ => ⟨hden, fun _ hnot => absurd hdvd hnot⟩,
              fun _ => (hlarge _ le_rfl (by omega)).symm⟩
          · rw [if_neg hdvd]
            exact ⟨nofun, fun h => absurd (h.2 rfl hdvd) hnum⟩
  · have hsmall := whole_small (quotient_small hden) rounding
    rw [RoundsExactly, toUnits_overflow (fun h => hden h.2), toRat_div]
    exact ⟨fun h => absurd h.symm hsmall, fun h => absurd h.1 hden⟩

/-- An increment at the scale of a parsed decimal fits an `i128`. -/
theorem denominator_fits (q : Increment) {value : Dec} (h : value.scale ≤ maxParseScale) :
    q.denominator value ≤ 2 ^ 127 - 1 := by
  have hscale := q.scale_le
  have hpow : (10 : Int) ^ (max value.scale q.scale - q.scale) ≤ 10 ^ 18 :=
    ten_pow_le (by unfold maxParseScale at h hscale; omega)
  have hmantissa := q.mantissa.le_hi
  have hpos := q.positive
  calc q.denominator value = q.mantissa.val * 10 ^ (max value.scale q.scale - q.scale) := rfl
    _ ≤ (2 ^ 63 - 1) * 10 ^ 18 := mul_le_mul hmantissa hpow (by positivity) (by norm_num)
    _ ≤ 2 ^ 127 - 1 := by norm_num

/-- A whole number of increments is found in a parsed decimal. -/
theorem toUnits_of_multiple {q : Increment} {value : Dec} {units : Int}
    (hscale : value.scale ≤ maxParseScale) (hvalue : value.toRat = units * q.toRat)
    (hfits : -2 ^ 63 ≤ units ∧ units ≤ 2 ^ 63 - 1) :
    q.toUnits value .exact = .ok ⟨units, hfits.1, hfits.2⟩ := by
  have hquotient : value.toRat / q.toRat = units := by
    rw [hvalue, mul_div_cancel_right₀ _ (ne_of_gt q.toRat_pos)]
  have hdvd : q.denominator value ∣ q.numerator value := by
    rw [← whole_iff (q.denominator_pos value), ← toRat_div, hquotient, Int.floor_intCast]
  have hrounds : q.RoundsExactly value .exact := (q.roundsExactly_iff value .exact).mpr
    ⟨denominator_fits q hscale, fun _ hnot => absurd hdvd hnot⟩
  have hwhole : Rounding.exact.whole (units : ℚ) = .ok units := by simp [Rounding.whole]
  rw [hrounds, hquotient, hwhole]
  show inUnits units = _
  rw [inUnits, Bounded.ofInt?_of_mem hfits]
  rfl

end Increment

/-- **`to_units` and exact rounding.** For every increment, value and rounding, the
result is the rounded rational quotient (or the error for an inexact one, or the
overflow of one that does not fit) exactly if the rescaled numbers fit. Whole
increments always come back from their own value. -/
theorem toUnits_rounds_exactly_iff (q : Increment) :
    (∀ value rounding, q.RoundsExactly value rounding ↔ q.RescalesFor value rounding) ∧
      ∀ units rounding, q.toUnits (q.fromUnits units) rounding = .ok units := by
  refine ⟨q.roundsExactly_iff, fun units rounding => ?_⟩
  have hnum : q.numerator (q.fromUnits units) = units.val * q.mantissa.val := by
    simp [Increment.numerator, Increment.fromUnits]
  have hden : q.denominator (q.fromUnits units) = q.mantissa.val := by
    simp [Increment.denominator, Increment.fromUnits]
  have hpos := q.positive
  have hq := q.mantissa.le_hi
  obtain ⟨hlo, hhi⟩ := Increment.mul_mem_i128 units q.mantissa
  obtain ⟨floor, hfloor, hunits⟩ := q.toUnits_eq_toWhole (q.fromUnits units) rounding
    (by rw [hnum]; exact ⟨hlo, hhi⟩) (by rw [hden]; omega)
  rw [hnum, hden, Int.mul_ediv_cancel _ (ne_of_gt hpos)] at hfloor
  rw [hunits, hnum, hden, Int.mul_emod_left]
  exact Increment.toWhole_exact hfloor rounding

/-- The largest increment, and the smallest positive decimal. -/
def largestIncrement : Increment :=
  ⟨⟨2 ^ 63 - 1, by norm_num, le_rfl⟩, 0, by norm_num, by decide, .inl rfl⟩

def smallestDec : Dec := ⟨I128.ofByte 1, 36, by decide⟩

/-- The quotient is almost zero, and its floor fits, but the increment at the
value's scale does not. -/
theorem toUnits_overflows_near_zero :
    Dec.new (I128.ofByte 1) 36 = .ok smallestDec ∧
      largestIncrement.toUnits smallestDec .down = .error .overflow ∧
      ¬ largestIncrement.RoundsExactly smallestDec .down := by
  have hden : ¬ largestIncrement.denominator smallestDec ≤ 2 ^ 127 - 1 := by
    have heq : largestIncrement.denominator smallestDec = (2 ^ 63 - 1) * 10 ^ 36 := rfl
    rw [heq]
    norm_num
  refine ⟨rfl, Increment.toUnits_overflow (fun h => hden h.2) .down, fun h => ?_⟩
  exact hden ((Increment.roundsExactly_iff ..).mp h).1

end Bowst.Core
