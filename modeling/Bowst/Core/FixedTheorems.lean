/-
Bowst.Core.FixedTheorems — what decimal text means and how it becomes whole
increments.

  §1 Digits    — the value of a list of digits.
  §2 Parsing   — a plain decimal parses to its value (`parseBytes_plain`).
  §3 Units     — `toUnits` is one division of integers (`toUnits_eq_toWhole`).
  §4 Fast path — the division-free path agrees with the general one.
-/
import Mathlib.Tactic.Ring
import Bowst.Core.Fixed

namespace Bowst.Core

open Bowst.Lib

/-! ## §1 Digits -/

/-- Reads more digits after the value `v`. -/
def foldDigits (v : Nat) (digits : Bytes) : Nat :=
  digits.foldl (fun v byte => v * 10 + (byte.toNat - 48)) v

/-- All bytes are ASCII digits. -/
def AllDigits (digits : Bytes) : Prop := ∀ byte ∈ digits, DecScan.isDigit byte = true

theorem isDigit_iff (byte : UInt8) :
    DecScan.isDigit byte = true ↔ 48 ≤ byte.toNat ∧ byte.toNat ≤ 57 := by
  simp [DecScan.isDigit, UInt8.le_iff_toNat_le]

@[simp] theorem foldDigits_nil (v : Nat) : foldDigits v [] = v := rfl

@[simp] theorem foldDigits_cons (v : Nat) (byte : UInt8) (digits : Bytes) :
    foldDigits v (byte :: digits) = foldDigits (v * 10 + (byte.toNat - 48)) digits :=
  List.foldl_cons ..

theorem foldDigits_append (v : Nat) (xs ys : Bytes) :
    foldDigits v (xs ++ ys) = foldDigits (foldDigits v xs) ys := List.foldl_append ..

theorem foldDigits_eq : ∀ (digits : Bytes) (v : Nat),
    foldDigits v digits = v * 10 ^ digits.length + foldDigits 0 digits := by
  intro digits
  induction digits with
  | nil => intro v; simp
  | cons byte digits ih =>
      intro v
      rw [foldDigits_cons, foldDigits_cons, ih, ih (0 * 10 + _)]
      simp only [List.length_cons, pow_succ]
      ring

theorem foldDigits_lt : ∀ {digits : Bytes}, AllDigits digits →
    foldDigits 0 digits < 10 ^ digits.length := by
  intro digits
  induction digits with
  | nil => intro _; simp
  | cons byte digits ih =>
      intro h
      have hbyte := (isDigit_iff byte).mp (h byte (List.mem_cons_self ..))
      have hrest := ih fun b hb => h b (List.mem_cons_of_mem _ hb)
      rw [foldDigits_cons, foldDigits_eq, List.length_cons, pow_succ]
      have hle : (0 * 10 + (byte.toNat - 48)) ≤ 9 := by omega
      have hmul := Nat.mul_le_mul_right (10 ^ digits.length) hle
      omega

/-- Trailing zeros shift the value. -/
theorem foldDigits_zeros : ∀ (zeros : Bytes), (∀ byte ∈ zeros, byte = 48) → ∀ v,
    foldDigits v zeros = v * 10 ^ zeros.length := by
  intro zeros
  induction zeros with
  | nil => intro _ v; simp
  | cons byte zeros ih =>
      intro h v
      have hbyte : byte = 48 := h byte (List.mem_cons_self ..)
      subst hbyte
      rw [foldDigits_cons, ih fun b hb => h b (List.mem_cons_of_mem _ hb)]
      have hzero : (48 : UInt8).toNat - 48 = 0 := by decide
      rw [hzero, List.length_cons, pow_succ]
      ring

/-! ## §2 Parsing -/

namespace DecScan

theorem digit_toNat {byte : UInt8} (h : isDigit byte = true) :
    (byte - 48).toNat = byte.toNat - 48 := by
  have hle : (48 : UInt8) ≤ byte := UInt8.le_iff_toNat_le.mpr ((isDigit_iff byte).mp h).1
  rw [UInt8.toNat_sub_of_le _ _ hle]
  rfl

/-- The part of the state that adding a digit leaves alone. -/
def SameCounts (st st' : DecScan) : Prop :=
  st'.scale = st.scale ∧ st'.seenPoint = st.seenPoint ∧ st'.intDigits = st.intDigits

theorem accumulate_spec {value : I128} {digit : UInt8}
    (hnonneg : 0 ≤ value.val) (hfit : value.val * 10 + digit.toNat ≤ 2 ^ 127 - 1) :
    ∃ next, accumulate value digit = .ok next ∧ next.val = value.val * 10 + digit.toNat := by
  let product : I128 := ⟨value.val * 10, by omega, by omega⟩
  let next : I128 := ⟨value.val * 10 + digit.toNat, by omega, hfit⟩
  have hmul : value.checkedMul (I128.ofByte 10) = some product :=
    Bounded.ofInt?_eq_some_iff.mpr rfl
  have hadd : product.checkedAdd (I128.ofByte digit) = some next :=
    Bounded.ofInt?_eq_some_iff.mpr rfl
  refine ⟨next, ?_, rfl⟩
  unfold accumulate
  rw [hmul, Option.bind_some, hadd]
  rfl

/-- A digit that fits is added, whichever of the two accumulators is in use. -/
theorem addDigit_spec (st : DecScan) {digit : UInt8} (hnonneg : 0 ≤ st.value.val)
    (hfit : st.value.val * 10 + digit.toNat ≤ 2 ^ 127 - 1) :
    ∃ st', st.addDigit digit = .ok st' ∧ st'.value.val = st.value.val * 10 + digit.toNat ∧
      SameCounts st st' := by
  unfold addDigit
  cases hbig : st.big with
  | some value =>
      have hvalue : st.value = value := by simp [DecScan.value, hbig]
      rw [hvalue] at hnonneg hfit ⊢
      obtain ⟨next, hok, hnext⟩ := accumulate_spec hnonneg hfit
      refine ⟨{ st with big := some next }, ?_, by simpa [DecScan.value] using hnext, rfl, rfl, rfl⟩
      simp only [hok]
      rfl
  | none =>
      have hvalue : st.value = I128.ofU64 st.small := by simp [DecScan.value, hbig]
      rw [hvalue] at hnonneg hfit ⊢
      dsimp only
      cases hsmall : (st.small.checkedMul (U64.ofByte 10)).bind
          fun m => m.checkedAdd (U64.ofByte digit) with
      | some next =>
          obtain ⟨m, hm, hnext⟩ := Option.bind_eq_some_iff.mp hsmall
          have h1 := Bounded.ofInt?_eq_some_iff.mp hm
          have h2 := Bounded.ofInt?_eq_some_iff.mp hnext
          refine ⟨_, rfl, ?_, rfl, rfl, rfl⟩
          simp only [DecScan.value, Option.getD_none]
          show next.val = st.small.val * 10 + digit.toNat
          rw [h2, h1]
          rfl
      | none =>
          obtain ⟨next, hok, hnext⟩ := accumulate_spec hnonneg hfit
          refine ⟨{ st with big := some next }, ?_, by simpa [DecScan.value] using hnext,
            rfl, rfl, rfl⟩
          simp only [hok]
          rfl

/-- The counts after `n` more digits. -/
def CountedMore (st st' : DecScan) (n : Nat) : Prop :=
  st'.seenPoint = st.seenPoint ∧
    st'.scale = (if st.seenPoint then st.scale + n else st.scale) ∧
    st'.intDigits = (if st.seenPoint then st.intDigits else st.intDigits + n)

/-- One digit of the text. -/
theorem step_digit (st : DecScan) (pos : Nat) {byte : UInt8} (hdigit : isDigit byte = true)
    (hnonneg : 0 ≤ st.value.val)
    (hfit : st.value.val * 10 + (byte.toNat - 48 : Nat) ≤ 2 ^ 127 - 1)
    (hscale : st.seenPoint = true → st.scale + 1 ≤ maxParseScale) :
    ∃ st', st.step pos byte = .ok st' ∧
      st'.value.val = st.value.val * 10 + (byte.toNat - 48 : Nat) ∧ st.CountedMore st' 1 := by
  rw [← digit_toNat hdigit] at hfit ⊢
  obtain ⟨st₁, hadd, hvalue, h1, h2, h3⟩ := st.addDigit_spec hnonneg hfit
  unfold step
  simp only [hdigit, if_true, hadd]
  show ∃ st', st₁.countDigit = .ok st' ∧ _
  unfold countDigit
  cases hpoint : st.seenPoint with
  | true =>
      rw [h2, hpoint, if_pos rfl, h1, dif_pos (hscale hpoint)]
      exact ⟨_, rfl, hvalue, by simp [hpoint], by simp [hpoint], by simp [hpoint, h3]⟩
  | false =>
      rw [h2, hpoint, if_neg (by simp)]
      exact ⟨_, rfl, hvalue, by simp [hpoint], by simp [hpoint, h1], by simp [hpoint, h3]⟩

/-- The loop over digits that fit: the value is read, the digits are counted. -/
theorem run_digits : ∀ (digits : Bytes) (st : DecScan) (pos : Nat) (v : Nat), AllDigits digits →
    st.value.val = v → (foldDigits v digits : Int) ≤ 2 ^ 127 - 1 →
    (st.seenPoint = true → st.scale + digits.length ≤ maxParseScale) →
    ∃ st', st.run pos digits = .ok st' ∧ st'.value.val = foldDigits v digits ∧
      st.CountedMore st' digits.length := by
  intro digits
  induction digits with
  | nil =>
      intro st pos v _ hv _ _
      exact ⟨st, rfl, by simpa using hv, rfl, by simp, by simp⟩
  | cons byte digits ih =>
      intro st pos v hdigits hv hfit hscale
      have hbyte := hdigits byte (List.mem_cons_self ..)
      have hle : v * 10 + (byte.toNat - 48) ≤ foldDigits v (byte :: digits) := by
        rw [foldDigits_cons, foldDigits_eq]
        have := Nat.le_mul_of_pos_right (v * 10 + (byte.toNat - 48))
          (Nat.pow_pos (n := digits.length) (show 0 < 10 by norm_num))
        omega
      obtain ⟨st₁, hstep, hvalue, h1, h2, h3⟩ := st.step_digit pos hbyte (by omega) (by omega)
        (fun hp => by have := hscale hp; rw [List.length_cons] at this; omega)
      have hv' : st₁.value.val = ((v * 10 + (byte.toNat - 48) : Nat) : Int) := by
        rw [hvalue, hv]; push_cast; rfl
      obtain ⟨st', hrun, hend, g1, g2, g3⟩ := ih st₁ (pos + 1) _
        (fun b hb => hdigits b (List.mem_cons_of_mem _ hb)) hv' hfit
        (fun hp => by
          rw [h1] at hp
          have := hscale hp
          rw [h2, if_pos hp]
          rw [List.length_cons] at this
          omega)
      refine ⟨st', ?_, hend, g1.trans h1, ?_, ?_⟩
      · rw [run, hstep]
        exact hrun
      · rw [g2, h1, h2, List.length_cons]
        cases st.seenPoint with
        | true => simp only [if_true]; omega
        | false => rfl
      · rw [g3, h1, h3, List.length_cons]
        cases st.seenPoint with
        | true => rfl
        | false => simp only [Bool.false_eq_true, if_false]; omega

theorem run_append : ∀ (xs ys : Bytes) (st : DecScan) (pos : Nat),
    st.run pos (xs ++ ys) = (st.run pos xs).bind fun st' => st'.run (pos + xs.length) ys := by
  intro xs
  induction xs with
  | nil => intro ys st pos; rfl
  | cons x xs ih =>
      intro ys st pos
      rw [List.cons_append, run, run]
      cases st.step pos x with
      | error err => rfl
      | ok st' =>
          show st'.run (pos + 1) (xs ++ ys) = _
          rw [ih, List.length_cons, Nat.add_right_comm, Nat.add_assoc pos]
          rfl

end DecScan

/-- The text of a plain decimal: sign, integer digits, and decimal places after
a point if there are any. -/
def plainText (negative : Bool) (int frac : Bytes) : Bytes :=
  (if negative then [45] else []) ++ int ++ (if frac = [] then [] else 46 :: frac)

/-- The integer digits and the decimal places are read in one loop. -/
theorem DecScan.run_plain {int frac : Bytes} (pos : Nat) (hne : int ≠ []) (hint : AllDigits int)
    (hfrac : AllDigits frac) (hscale : frac.length ≤ maxParseScale)
    (hfit : (foldDigits 0 (int ++ frac) : Int) ≤ 2 ^ 127 - 1) :
    ∃ st, DecScan.start.run pos (int ++ if frac = [] then [] else 46 :: frac) = .ok st ∧
      st.value.val = foldDigits 0 (int ++ frac) ∧ st.scale = frac.length ∧ 0 < st.intDigits ∧
      st.seenPoint = decide (frac ≠ []) := by
  have hlen : 0 < int.length := List.length_pos_iff.mpr hne
  have hle : foldDigits 0 int ≤ foldDigits 0 (int ++ frac) := by
    rw [foldDigits_append, foldDigits_eq frac]
    have := Nat.le_mul_of_pos_right (foldDigits 0 int)
      (Nat.pow_pos (n := frac.length) (show 0 < 10 by norm_num))
    omega
  obtain ⟨st₁, hrun, hvalue, h1, h2, h3⟩ := DecScan.run_digits int DecScan.start pos 0 hint rfl
    (by omega) (by simp [DecScan.start])
  simp only [DecScan.start, Bool.false_eq_true, if_false, Nat.zero_add] at h1 h2 h3
  rw [DecScan.run_append, hrun]
  by_cases hf : frac = []
  · subst hf
    exact ⟨st₁, rfl, by simpa using hvalue, by simpa using h2, by omega, by simpa using h1⟩
  · rw [if_neg hf]
    -- The point switches the counting to decimal places.
    have hpoint : st₁.step (pos + int.length) 46 = .ok { st₁ with seenPoint := true } := by
      simp [DecScan.step, DecScan.isDigit, h1, h3, hlen]
    obtain ⟨st', hrun', hvalue', g1, g2, g3⟩ := DecScan.run_digits frac
      { st₁ with seenPoint := true } (pos + int.length + 1) (foldDigits 0 int) hfrac hvalue
      (by rw [← foldDigits_append]; exact hfit) (by simpa [h2] using hscale)
    refine ⟨st', ?_, by rw [hvalue', foldDigits_append], ?_, ?_, ?_⟩
    · show DecScan.run st₁ (pos + int.length) (46 :: frac) = .ok st'
      rw [DecScan.run, hpoint]
      exact hrun'
    · simpa [h2] using g2
    · simp only [if_true] at g3
      omega
    · simpa [hf] using g1

/-- A plain decimal that fits parses to its value. -/
theorem Dec.parseBytes_plain (negative : Bool) {int frac : Bytes} (hne : int ≠ [])
    (hint : AllDigits int) (hfrac : AllDigits frac) (hscale : frac.length ≤ maxParseScale)
    (hfit : (foldDigits 0 (int ++ frac) : Int) ≤ 2 ^ 127 - 1) :
    ∃ d, Dec.parseBytes (plainText negative int frac) = .ok d ∧ d.scale = frac.length ∧
      d.mantissa.val = if negative then -(foldDigits 0 (int ++ frac) : Int)
        else (foldDigits 0 (int ++ frac) : Int) := by
  have hbound : ∀ st : DecScan, st.scale ≤ maxScale := fun st => le_trans st.scale_le (by decide)
  have hplaces : ∀ {st : DecScan}, st.scale = frac.length → st.seenPoint = decide (frac ≠ []) →
      ¬ (st.seenPoint = true ∧ st.scale = 0) := by
    intro st h1 h2 ⟨h3, h4⟩
    rw [h2, decide_eq_true_iff] at h3
    rw [h1, List.length_eq_zero_iff] at h4
    exact h3 h4
  cases negative with
  | true =>
      obtain ⟨st, hrun, hvalue, hsc, hdigits, hpoint⟩ :=
        DecScan.run_plain 1 hne hint hfrac hscale hfit
      have hneg : st.value.checkedNeg = some ⟨-st.value.val, by omega, by omega⟩ :=
        Bounded.ofInt?_eq_some_iff.mpr rfl
      refine ⟨⟨⟨-st.value.val, by omega, by omega⟩, st.scale, hbound st⟩, ?_, hsc, by simp [hvalue]⟩
      simp only [plainText, if_true, List.cons_append, List.nil_append, Dec.parseBytes, hrun]
      show Dec.finish true _ st = _
      rw [Dec.finish, if_neg (by omega), if_neg (hplaces hsc hpoint), if_pos rfl, hneg]
      rfl
  | false =>
      obtain ⟨st, hrun, hvalue, hsc, hdigits, hpoint⟩ :=
        DecScan.run_plain 0 hne hint hfrac hscale hfit
      obtain ⟨first, rest, rfl⟩ := List.exists_cons_of_ne_nil hne
      -- A digit is not a minus sign, so the text is read as unsigned.
      have hfirst : first ≠ 45 := by
        rintro rfl
        exact absurd (hint 45 (List.mem_cons_self ..)) (by decide)
      refine ⟨⟨st.value, st.scale, hbound st⟩, ?_, hsc, by simp [hvalue]⟩
      simp only [List.cons_append] at hrun
      simp only [plainText, Bool.false_eq_true, if_false, List.nil_append, List.cons_append,
        Dec.parseBytes, if_neg hfirst, hrun]
      show Dec.finish false _ st = _
      rw [Dec.finish, if_neg (by omega), if_neg (hplaces hsc hpoint)]
      rfl

/-! ## §3 Units -/

theorem pow10_of_lt {n : Nat} (h : n < 39) :
    ∃ p, pow10 n = .ok p ∧ p.val = 10 ^ n := ⟨_, dif_pos h, rfl⟩

/-- The mantissa at a larger scale is a product. -/
theorem Dec.mantissaAt_eq_mul {d : Dec} {scale : Nat} (hle : d.scale ≤ scale)
    (hscale : scale ≤ maxScale) : ∃ p : I128, p.val = 10 ^ (scale - d.scale) ∧
      d.mantissaAt scale = okOr (d.mantissa.checkedMul p) .overflow := by
  obtain ⟨p, hp, hval⟩ := pow10_of_lt (n := scale - d.scale) (by unfold maxScale at hscale; omega)
  refine ⟨p, hval, ?_⟩
  simp only [Dec.mantissaAt, if_pos hle]
  show (pow10 (scale - d.scale) >>= fun factor => okOr (d.mantissa.checkedMul factor) .overflow) = _
  rw [hp]
  rfl

/-- The mantissa at a larger scale, when the product fits. -/
theorem Dec.mantissaAt_of_fits {d : Dec} {scale : Nat} (hle : d.scale ≤ scale)
    (hscale : scale ≤ maxScale) {m : I128} (hm : m.val = d.mantissa.val * 10 ^ (scale - d.scale)) :
    d.mantissaAt scale = .ok m := by
  obtain ⟨p, hval, hproduct⟩ := d.mantissaAt_eq_mul hle hscale
  have hmul : d.mantissa.checkedMul p = some m := by
    refine Bounded.ofInt?_eq_some_iff.mpr ?_
    rw [hm, hval]
  rw [hproduct, hmul]
  rfl

namespace Increment

/-- The value over the increment as a fraction of integers, at the larger of the
two scales. -/
def numerator (q : Increment) (value : Dec) : Int :=
  value.mantissa.val * 10 ^ (max value.scale q.scale - value.scale)

def denominator (q : Increment) (value : Dec) : Int :=
  q.mantissa.val * 10 ^ (max value.scale q.scale - q.scale)

theorem denominator_pos (q : Increment) (value : Dec) : 0 < q.denominator value :=
  mul_pos q.positive (pow_pos (by norm_num) _)

theorem pow10I64_val {n : Nat} {f : I64} (h : pow10I64 n = some f) : f.val = 10 ^ n := by
  unfold pow10I64 at h
  split at h
  · cases h; rfl
  · cases h

theorem rescaledI64_spec {q : Increment} {value : Dec} {n d : I64}
    (h : q.rescaledI64 value (max value.scale q.scale) = some (n, d)) :
    n.val = q.numerator value ∧ d.val = q.denominator value := by
  simp only [rescaledI64, if_pos (le_max_left ..), if_pos (le_max_right ..),
    Option.bind_eq_some_iff] at h
  obtain ⟨m, hm, f, hf, n', hn, f', hf', d', hd, heq⟩ := h
  cases heq
  have h1 := Bounded.ofInt?_eq_some_iff.mp hm
  have h2 := Bounded.ofInt?_eq_some_iff.mp hn
  have h3 := Bounded.ofInt?_eq_some_iff.mp hd
  rw [h2, h3, h1, pow10I64_val hf, pow10I64_val hf']
  exact ⟨rfl, rfl⟩

/-- The exactness test of either path. -/
theorem rem_eq_zero_iff {lo hi : Int} {n d : Bounded lo hi} (hlo : lo ≤ 0) (hd : 0 < d.val) :
    ((n.checkedRemEuclid d).map Bounded.val = some 0) ↔ n.val % d.val = 0 := by
  obtain ⟨r, hr, hval⟩ := Bounded.checkedRemEuclid_of_pos n hlo hd
  rw [hr, ← hval]
  simp

/-- The spec of `toUnits`: one exact division, whichever width it runs in. -/
theorem toUnits_eq_toWhole (q : Increment) (value : Dec) (rounding : Rounding)
    (hnum : -2 ^ 127 ≤ q.numerator value ∧ q.numerator value ≤ 2 ^ 127 - 1)
    (hden : q.denominator value ≤ 2 ^ 127 - 1) :
    ∃ floor : I128, floor.val = q.numerator value / q.denominator value ∧
      q.toUnits value rounding =
        toWhole floor (decide (q.numerator value % q.denominator value = 0)) rounding := by
  have hpos := q.denominator_pos value
  unfold toUnits
  dsimp only
  cases hfast : q.rescaledI64 value (max value.scale q.scale) with
  | some pair =>
      obtain ⟨n, d⟩ := pair
      obtain ⟨hn, hd⟩ := rescaledI64_spec hfast
      rw [← hd] at hpos
      obtain ⟨floor, hfloor, hval⟩ := Bounded.checkedDivEuclid_of_pos n (by norm_num) hpos
      refine ⟨I128.ofI64 floor, by rw [← hn, ← hd]; exact hval, ?_⟩
      rw [← hn, ← hd]
      dsimp only
      rw [hfloor]
      simp only [rem_eq_zero_iff (n := n) (by norm_num) hpos]
      rfl
  | none =>
      have hscale : max value.scale q.scale ≤ maxScale :=
        max_le value.scale_le (le_trans q.scale_le (by decide))
      let n : I128 := ⟨q.numerator value, hnum.1, hnum.2⟩
      let d : I128 := ⟨q.denominator value, by omega, hden⟩
      have hn : value.mantissaAt (max value.scale q.scale) = .ok n :=
        Dec.mantissaAt_of_fits (le_max_left ..) hscale rfl
      have hd : q.asDec.mantissaAt (max value.scale q.scale) = .ok d :=
        Dec.mantissaAt_of_fits (d := q.asDec) (le_max_right ..) hscale rfl
      obtain ⟨floor, hfloor, hval⟩ := Bounded.checkedDivEuclid_of_pos n (b := d) (by norm_num) hpos
      refine ⟨floor, hval, ?_⟩
      dsimp only
      rw [hn, hd]
      show (okOr (n.checkedDivEuclid d) .overflow >>= fun floor => toWhole floor _ rounding) = _
      rw [hfloor]
      simp only [rem_eq_zero_iff (n := n) (d := d) (by norm_num) hpos]
      rfl

/-- An exact quotient that fits an `i64` is the answer for every rounding. -/
theorem toWhole_exact {floor : I128} {units : I64} (h : floor.val = units.val)
    (rounding : Rounding) : toWhole floor true rounding = .ok units := by
  have hcast : (floor.cast? : Option I64) = some units := Bounded.ofInt?_eq_some_iff.mpr h.symm
  have hround : roundQuotient floor true rounding = .ok floor := by cases rounding <;> rfl
  unfold toWhole
  rw [hround]
  show okOr (floor.cast? : Option I64) .overflow = _
  rw [hcast]
  rfl

/-! ## §4 Fast path -/

/-- A byte the fast path takes for a digit is one. -/
theorem digit_le_nine_iff (byte : UInt8) : ¬ byte - 48 > 9 ↔ DecScan.isDigit byte = true := by
  have hlt := byte.toNat_lt
  have hsub : (byte - 48).toNat = (2 ^ 8 - 48 + byte.toNat) % 2 ^ 8 := UInt8.toNat_sub byte 48
  rw [isDigit_iff, gt_iff_lt, UInt8.lt_iff_toNat_lt, hsub, show (9 : UInt8).toNat = 9 from rfl]
  omega

/-- The unchecked digit loop: it takes digits only, and with at most 18 of them
nothing wraps. -/
theorem fastUnits_spec : ∀ (digits : Bytes) (u w k : Nat), u < 10 ^ k →
    k + digits.length ≤ fastDigits → fastUnits u digits = some w →
    AllDigits digits ∧ w = foldDigits u digits := by
  intro digits
  induction digits with
  | nil =>
      intro u w k _ _ h
      cases h
      exact ⟨fun b hb => absurd hb List.not_mem_nil, rfl⟩
  | cons byte digits ih =>
      intro u w k hu hlen h
      simp only [fastUnits] at h
      split at h
      · cases h
      · rename_i hnine
        have hdigit := (digit_le_nine_iff byte).mp hnine
        have hbyte := (isDigit_iff byte).mp hdigit
        rw [DecScan.digit_toNat hdigit] at h
        simp only [List.length_cons] at hlen
        have hu' : u * 10 + (byte.toNat - 48) < 10 ^ (k + 1) := by
          rw [pow_succ]; omega
        have hwrap : u * 10 + (byte.toNat - 48) < 2 ^ 64 := by
          have hk : 10 ^ (k + 1) ≤ 10 ^ 18 :=
            Nat.pow_le_pow_right (by norm_num) (by unfold fastDigits at hlen; omega)
          have : (10 : Nat) ^ 18 < 2 ^ 64 := by norm_num
          omega
        rw [Nat.mod_eq_of_lt (by omega : u * 10 < 2 ^ 64), Nat.mod_eq_of_lt hwrap] at h
        obtain ⟨hall, hw⟩ := ih _ w (k + 1) hu' (by omega) h
        refine ⟨fun b hb => ?_, by rw [foldDigits_cons]; exact hw⟩
        rcases List.mem_cons.mp hb with rfl | hb
        · exact hdigit
        · exact hall b hb

/-- The split at the first point, read backwards. -/
theorem splitPoint_spec {bytes int frac : Bytes} (h : splitPoint bytes = some (int, frac)) :
    bytes = int ++ if frac = [] then [] else 46 :: frac := by
  unfold splitPoint at h
  cases hdot : bytes.findIdx? (fun b => b = 46) with
  | none =>
      rw [hdot] at h
      cases h
      simp
  | some dot =>
      rw [hdot] at h
      obtain ⟨hlt, hbyte, _⟩ := List.findIdx?_eq_some_iff_getElem.mp hdot
      dsimp only at h
      split at h
      · cases h
      · rename_i hne
        cases h
        have hne' : (bytes.drop dot).drop 1 ≠ [] := by simpa [List.isEmpty_iff] using hne
        have hcons : bytes.drop dot = 46 :: (bytes.drop dot).drop 1 := by
          rw [List.drop_eq_getElem_cons hlt]
          simp only [decide_eq_true_eq] at hbyte
          rw [hbyte]
          rfl
        rw [if_neg hne', ← hcons, List.take_append_drop]

/-- What the fast path has checked when it answers. -/
theorem parseExactPowerOfTen_spec {q : Increment} {bytes : Bytes} {units : I64}
    (h : q.parseExactPowerOfTen bytes = some units) :
    q.mantissa.val = 1 ∧ ∃ int kept dropped : Bytes,
      bytes = plainText false int (kept ++ dropped) ∧ int ≠ [] ∧ AllDigits (int ++ kept) ∧
      (∀ b ∈ dropped, b = 48) ∧ (kept ++ dropped).length ≤ maxParseScale ∧
      kept.length = min (kept ++ dropped).length q.scale ∧
      int.length + kept.length ≤ fastDigits ∧
      units.val = foldDigits 0 (int ++ kept) * 10 ^ (q.scale - kept.length) := by
  unfold parseExactPowerOfTen at h
  split at h
  · cases h
  · rename_i hone
    obtain ⟨⟨int, frac⟩, hsplit, h⟩ := Option.bind_eq_some_iff.mp h
    have hbytes := splitPoint_spec hsplit
    dsimp only at h
    split at h
    · cases h
    · rename_i hshape
      rw [not_or] at hshape
      split at h
      · cases h
      · rename_i hzeros
        split at h
        · cases h
        · rename_i hdigits
          obtain ⟨n, hfast, h⟩ := Option.bind_eq_some_iff.mp h
          obtain ⟨m, hm, h⟩ := Option.bind_eq_some_iff.mp h
          obtain ⟨f, hf, h⟩ := Option.bind_eq_some_iff.mp h
          obtain ⟨hall, hn⟩ := fastUnits_spec _ 0 n 0 (by norm_num)
            (by rw [List.length_append]; omega) hfast
          have h1 := Bounded.ofInt?_eq_some_iff.mp hm
          have h2 := Bounded.ofInt?_eq_some_iff.mp h
          refine ⟨not_not.mp hone, int, frac.take (min frac.length q.scale),
            frac.drop (min frac.length q.scale), ?_, ?_, hall, ?_, ?_, ?_, by omega, ?_⟩
          · rw [List.take_append_drop]
            exact hbytes
          · simpa [List.isEmpty_iff] using hshape.1
          · simpa using hzeros
          · rw [List.take_append_drop]
            omega
          · rw [List.take_append_drop, List.length_take]
            omega
          · rw [h2, h1, hn, pow10I64_val hf]

/-- What the general path makes of a text the fast path answers: a parsed value
whose quotient is the fast path's answer. -/
theorem general_of_fast {q : Increment} {bytes : Bytes} {units : I64}
    (h : q.parseExactPowerOfTen bytes = some units) (rounding : Rounding) :
    ∃ value, Dec.parseBytes bytes = .ok value ∧ q.toUnits value rounding = .ok units := by
  obtain ⟨hone, int, kept, dropped, rfl, hne, hall, hzeros, hscale, hkept, hfast, hunits⟩ :=
    parseExactPowerOfTen_spec h
  have hint : AllDigits int := fun b hb => hall b (List.mem_append_left _ hb)
  have hfrac : AllDigits (kept ++ dropped) := by
    intro b hb
    rcases List.mem_append.mp hb with hb | hb
    · exact hall b (List.mem_append_right _ hb)
    · rw [hzeros b hb]; decide
  -- The dropped places are zeros, so the whole text is the kept digits shifted.
  have hvalue : foldDigits 0 (int ++ (kept ++ dropped)) =
      foldDigits 0 (int ++ kept) * 10 ^ dropped.length := by
    rw [← List.append_assoc, foldDigits_append, foldDigits_zeros dropped hzeros]
  have hsmall : foldDigits 0 (int ++ kept) < 10 ^ 18 := by
    refine lt_of_lt_of_le (foldDigits_lt hall) (Nat.pow_le_pow_right (by norm_num) ?_)
    rw [List.length_append]
    exact hfast
  have hlen : kept.length + dropped.length ≤ 18 := by
    simpa [maxParseScale] using hscale
  have hlarge : foldDigits 0 (int ++ (kept ++ dropped)) < 10 ^ 36 := by
    have hpow : 10 ^ dropped.length ≤ 10 ^ 18 := Nat.pow_le_pow_right (by norm_num) (by omega)
    have hmul : (10 : Nat) ^ 36 = 10 ^ 18 * 10 ^ 18 := by norm_num
    rw [hvalue, hmul]
    exact Nat.mul_lt_mul_of_lt_of_le hsmall hpow (by norm_num)
  have hlarge' : (foldDigits 0 (int ++ (kept ++ dropped)) : Int) < 10 ^ 36 := by exact_mod_cast hlarge
  have hmax : (10 : Int) ^ 36 < 2 ^ 127 - 1 := by norm_num
  obtain ⟨value, hparse, hvscale, hvmant⟩ := Dec.parseBytes_plain false hne hint
    hfrac hscale (by omega)
  simp only [Bool.false_eq_true, if_false] at hvmant
  refine ⟨value, hparse, ?_⟩
  -- The fraction is the fast path's units over one, in either order of the scales.
  have hfraction : q.numerator value = units.val * q.denominator value ∧
      q.numerator value ≤ 2 ^ 127 - 1 ∧ q.denominator value ≤ 2 ^ 127 - 1 := by
    simp only [numerator, denominator, hone, hvmant, hvscale, hunits]
    rw [List.length_append] at hkept ⊢
    rcases le_total (kept.length + dropped.length) q.scale with hle | hle
    · have hd : dropped.length = 0 := by omega
      have hfit := units.le_hi
      rw [hunits] at hfit
      rw [max_eq_right hle, hvalue, hd]
      simp only [Nat.add_zero, pow_zero, mul_one, Nat.sub_self] at hfit ⊢
      exact ⟨trivial, by omega, by norm_num⟩
    · have hk : kept.length = q.scale := by omega
      have hpow : (10 : Int) ^ dropped.length ≤ 10 ^ 18 := ten_pow_le (by omega)
      have hsub : kept.length + dropped.length - q.scale = dropped.length := by omega
      rw [max_eq_left hle, hsub, hk, Nat.sub_self, Nat.sub_self, hvalue]
      rw [hvalue] at hlarge'
      push_cast at hlarge' ⊢
      simp only [mul_one, one_mul]
      exact ⟨trivial, by omega, le_trans hpow (by norm_num)⟩
  obtain ⟨heq, hnum, hden⟩ := hfraction
  have hpos := q.denominator_pos value
  have hnonneg : 0 ≤ q.numerator value := by
    unfold numerator
    rw [hvmant]
    positivity
  obtain ⟨floor, hfloor, htoUnits⟩ := q.toUnits_eq_toWhole value rounding
    ⟨by omega, hnum⟩ hden
  rw [heq, Int.mul_ediv_cancel _ (ne_of_gt hpos)] at hfloor
  rw [htoUnits, heq, Int.mul_emod_left]
  exact toWhole_exact hfloor rounding

end Increment

/-- **The fast path agrees with the general one.** For every text, every
increment and every rounding, `parseUnitsBytes` gives the value or the error of
`Dec.parseBytes` followed by `toUnits`. -/
theorem parseUnitsBytes_eq_general (q : Increment) (bytes : Bytes) (rounding : Rounding) :
    q.parseUnitsBytes bytes rounding =
      (Dec.parseBytes bytes).bind fun value => q.toUnits value rounding := by
  unfold Increment.parseUnitsBytes
  cases hfast : q.parseExactPowerOfTen bytes with
  | none => rfl
  | some units =>
      obtain ⟨value, hparse, hunits⟩ := Increment.general_of_fast hfast rounding
      rw [hparse]
      exact hunits.symm

end Bowst.Core
