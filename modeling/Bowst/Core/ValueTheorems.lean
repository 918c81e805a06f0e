/-
Bowst.Core.ValueTheorems — the number that decimal text stands for.

What the parser accepts is a plain decimal, and the units of an increment that it
returns for one, without rounding, are the quotient of the two numbers.

  §1 Parsing — only plain decimals parse, to their digits (`parseBytes_sound`).
  §2 Values  — exact units are exact quotients (`parseUnitsBytes_exact`).
-/
import Mathlib.Data.Rat.Defs
import Mathlib.Algebra.Order.Field.Rat
import Mathlib.Tactic.FieldSimp
import Mathlib.Tactic.Positivity
import Bowst.Core.FixedTheorems

namespace Bowst.Core

open Bowst.Lib

/-! ## §1 Parsing -/

theorem okOr_eq_ok {α : Type} {a : Option α} {err : FixedError} {x : α} :
    okOr a err = .ok x ↔ a = some x := by
  cases a <;> simp [okOr]

theorem accumulate_sound {value next : I128} {digit : UInt8} (h : accumulate value digit = .ok next) :
    next.val = value.val * 10 + digit.toNat := by
  obtain ⟨m, hm, hnext⟩ := Option.bind_eq_some_iff.mp (okOr_eq_ok.mp h)
  have h1 := Bounded.ofInt?_eq_some_iff.mp hm
  have h2 := Bounded.ofInt?_eq_some_iff.mp hnext
  rw [h2, h1]
  rfl

namespace DecScan

/-- A digit that was added fitted. -/
theorem addDigit_sound {st st' : DecScan} {digit : UInt8} (h : st.addDigit digit = .ok st') :
    st'.value.val = st.value.val * 10 + digit.toNat ∧ SameCounts st st' := by
  unfold addDigit at h
  cases hbig : st.big with
  | some value =>
      simp only [hbig] at h
      obtain ⟨next, hacc, h⟩ := except_bind_eq_ok.mp h
      cases h
      refine ⟨?_, rfl, rfl, rfl⟩
      simpa [DecScan.value, hbig] using accumulate_sound hacc
  | none =>
      simp only [hbig] at h
      cases hsmall : (st.small.checkedMul (U64.ofByte 10)).bind
          fun m => m.checkedAdd (U64.ofByte digit) with
      | some next =>
          simp only [hsmall] at h
          cases h
          obtain ⟨m, hm, hnext⟩ := Option.bind_eq_some_iff.mp hsmall
          have h1 := Bounded.ofInt?_eq_some_iff.mp hm
          have h2 := Bounded.ofInt?_eq_some_iff.mp hnext
          refine ⟨?_, rfl, rfl, rfl⟩
          simp only [DecScan.value, hbig, Option.getD_none]
          show next.val = st.small.val * 10 + digit.toNat
          rw [h2, h1]
          rfl
      | none =>
          simp only [hsmall] at h
          obtain ⟨next, hacc, h⟩ := except_bind_eq_ok.mp h
          cases h
          refine ⟨?_, rfl, rfl, rfl⟩
          simpa [DecScan.value, hbig] using accumulate_sound hacc

/-- The state of the loop behind the text `seen`. -/
structure Scanned (seen int frac : Bytes) (st : DecScan) : Prop where
  int_digits : AllDigits int
  frac_digits : AllDigits frac
  value : st.value.val = foldDigits 0 (int ++ frac)
  intDigits : st.intDigits = int.length
  scale : st.scale = frac.length
  seen : if st.seenPoint then int ≠ [] ∧ seen = int ++ 46 :: frac else frac = [] ∧ seen = int

theorem allDigits_append {xs : Bytes} {byte : UInt8} (h : AllDigits xs)
    (hbyte : isDigit byte = true) : AllDigits (xs ++ [byte]) := by
  intro b hb
  rcases List.mem_append.mp hb with hb | hb
  · exact h b hb
  · rw [List.mem_singleton.mp hb]
    exact hbyte

/-- A digit goes to the part of the text the loop is in, a point ends the first. -/
theorem step_scanned {seen int frac : Bytes} {st st' : DecScan} {pos : Nat} {byte : UInt8}
    (hst : Scanned seen int frac st) (h : st.step pos byte = .ok st') :
    ∃ int' frac', Scanned (seen ++ [byte]) int' frac' st' := by
  obtain ⟨hint, hfrac, hvalue, hcount, hscale, hseen⟩ := hst
  unfold step at h
  split_ifs at h with hdigit hpoint
  · obtain ⟨st₁, hadd, h⟩ := except_bind_eq_ok.mp h
    obtain ⟨hvalue₁, hscale₁, hpoint₁, hcount₁⟩ := addDigit_sound hadd
    rw [hvalue, digit_toNat hdigit] at hvalue₁
    unfold countDigit at h
    rw [hpoint₁] at h
    cases hflag : st.seenPoint with
    | true =>
        simp only [hflag, if_true] at h hseen
        split_ifs at h
        cases h
        refine ⟨int, frac ++ [byte], hint, allDigits_append hfrac hdigit, ?_, ?_, ?_, ?_⟩
        · rw [← List.append_assoc, foldDigits_append]
          exact_mod_cast hvalue₁
        · exact hcount₁.trans hcount
        · simp [hscale₁, hscale]
        · rw [if_pos rfl]
          exact ⟨hseen.1, by simp [hseen.2]⟩
    | false =>
        simp only [hflag, Bool.false_eq_true, if_false] at h hseen
        cases h
        obtain ⟨rfl, rfl⟩ := hseen
        refine ⟨seen ++ [byte], [], allDigits_append hint hdigit, hfrac, ?_, ?_, ?_, ?_⟩
        · rw [List.append_nil, foldDigits_append]
          rw [List.append_nil] at hvalue₁
          exact_mod_cast hvalue₁
        · simp [hcount₁, hcount]
        · exact hscale₁.trans hscale
        · rw [if_neg Bool.false_ne_true]
          exact ⟨rfl, rfl⟩
  · obtain ⟨rfl, hflag, hpos⟩ := hpoint
    cases h
    simp only [hflag, Bool.false_eq_true, if_false] at hseen
    obtain ⟨rfl, rfl⟩ := hseen
    refine ⟨seen, [], hint, hfrac, hvalue, hcount, hscale, ?_⟩
    rw [if_pos rfl]
    refine ⟨?_, rfl⟩
    rintro rfl
    simp at hcount
    omega

/-- The whole loop, from any text on. -/
theorem run_scanned : ∀ (bytes : Bytes) {seen int frac : Bytes} {st st' : DecScan} {pos : Nat},
    Scanned seen int frac st → st.run pos bytes = .ok st' →
      ∃ int' frac', Scanned (seen ++ bytes) int' frac' st' := by
  intro bytes
  induction bytes with
  | nil =>
      intro seen int frac st st' pos hst h
      cases h
      exact ⟨int, frac, by rwa [List.append_nil]⟩
  | cons byte bytes ih =>
      intro seen int frac st st' pos hst h
      rw [run] at h
      obtain ⟨st₁, hstep, h⟩ := except_bind_eq_ok.mp h
      obtain ⟨int₁, frac₁, hst₁⟩ := step_scanned hst hstep
      obtain ⟨int', frac', hst'⟩ := ih hst₁ h
      exact ⟨int', frac', by simpa using hst'⟩

theorem start_scanned : Scanned [] [] [] start := by
  refine ⟨by simp [AllDigits], by simp [AllDigits], rfl, rfl, rfl, ?_⟩
  simp [start]

end DecScan

/-- The digits and the sign of a text that was accepted. -/
theorem Dec.finish_sound {negative : Bool} {len : Nat} {text int frac : Bytes} {st : DecScan} {d : Dec}
    (hst : DecScan.Scanned text int frac st) (h : Dec.finish negative len st = .ok d) :
    int ≠ [] ∧ text = plainText false int frac ∧ d.scale = frac.length ∧
      d.mantissa.val = (if negative then -1 else 1) * (foldDigits 0 (int ++ frac) : Int) := by
  obtain ⟨-, -, hvalue, hcount, hscale, hseen⟩ := hst
  unfold finish at h
  by_cases hempty : st.intDigits = 0
  · simp [hempty] at h
  by_cases hpoint : st.seenPoint ∧ st.scale = 0
  · simp [hempty, hpoint] at h
  rw [if_neg hempty, if_neg hpoint] at h
  have hne : int ≠ [] := by
    rintro rfl
    exact hempty hcount
  have htext : text = plainText false int frac := by
    cases hflag : st.seenPoint with
    | true =>
        rw [hflag, if_pos rfl] at hseen
        have hfrac : frac ≠ [] := by
          rintro rfl
          exact hpoint ⟨hflag, hscale⟩
        simp [plainText, hfrac, hseen.2]
    | false =>
        rw [hflag, if_neg Bool.false_ne_true] at hseen
        simp [plainText, hseen.1, hseen.2]
  cases negative with
  | true =>
      obtain ⟨m, hm, h⟩ := except_bind_eq_ok.mp h
      cases h
      have hneg := Bounded.ofInt?_eq_some_iff.mp (okOr_eq_ok.mp hm)
      exact ⟨hne, htext, hscale, by simpa [hvalue] using hneg⟩
  | false =>
      obtain ⟨m, hm, h⟩ := except_bind_eq_ok.mp h
      cases hm
      cases h
      exact ⟨hne, htext, hscale, by simpa using hvalue⟩

/-- Only plain decimals parse, and to their digits. -/
theorem Dec.parseBytes_sound {bytes : Bytes} {d : Dec} (h : Dec.parseBytes bytes = .ok d) :
    ∃ negative int frac, int ≠ [] ∧ AllDigits int ∧ AllDigits frac ∧
      bytes = plainText negative int frac ∧ d.scale = frac.length ∧
      d.mantissa.val = (if negative then -1 else 1) * (foldDigits 0 (int ++ frac) : Int) := by
  cases bytes with
  | nil => simp [Dec.parseBytes] at h
  | cons first rest =>
      rw [Dec.parseBytes] at h
      by_cases hminus : first = 45
      · rw [if_pos hminus] at h
        obtain ⟨st, hrun, h⟩ := except_bind_eq_ok.mp h
        obtain ⟨int, frac, hst⟩ := DecScan.run_scanned rest DecScan.start_scanned hrun
        obtain ⟨hne, htext, hscale, hvalue⟩ := Dec.finish_sound hst h
        refine ⟨true, int, frac, hne, hst.int_digits, hst.frac_digits, ?_, hscale, hvalue⟩
        rw [hminus, ← List.nil_append rest, htext]
        simp [plainText]
      · rw [if_neg hminus] at h
        obtain ⟨st, hrun, h⟩ := except_bind_eq_ok.mp h
        obtain ⟨int, frac, hst⟩ := DecScan.run_scanned _ DecScan.start_scanned hrun
        obtain ⟨hne, htext, hscale, hvalue⟩ := Dec.finish_sound hst h
        exact ⟨false, int, frac, hne, hst.int_digits, hst.frac_digits, htext, hscale, hvalue⟩

/-! ## §2 Values -/

/-- The number that plain decimal text stands for: its digits, divided by ten for
each one behind the point, with its sign. -/
def decimalValue (text : Bytes) : ℚ :=
  let digits := text.filter DecScan.isDigit
  let places := (text.dropWhile fun b => b ≠ 46).length - 1
  (if text.head? = some 45 then -1 else 1) * (foldDigits 0 digits : ℚ) / 10 ^ places

def Dec.toRat (d : Dec) : ℚ := d.mantissa.val / 10 ^ d.scale

def Increment.toRat (q : Increment) : ℚ := q.mantissa.val / 10 ^ q.scale

theorem digit_ne {byte : UInt8} (h : DecScan.isDigit byte = true) : byte ≠ 45 ∧ byte ≠ 46 := by
  constructor
  · rintro rfl
    exact absurd h (by decide)
  · rintro rfl
    exact absurd h (by decide)

theorem decimalValue_plain (negative : Bool) {int frac : Bytes} (hne : int ≠ [])
    (hint : AllDigits int) (hfrac : AllDigits frac) :
    decimalValue (plainText negative int frac) =
      (if negative then -1 else 1) * (foldDigits 0 (int ++ frac) : ℚ) / 10 ^ frac.length := by
  have hkeepInt : int.filter DecScan.isDigit = int := List.filter_eq_self.mpr hint
  have hkeepFrac : frac.filter DecScan.isDigit = frac := List.filter_eq_self.mpr hfrac
  have hdrop : ∀ rest, (int ++ rest).dropWhile (fun b => b ≠ 46) =
      rest.dropWhile fun b => b ≠ 46 := by
    intro rest
    exact List.dropWhile_append_of_pos fun b hb => by simpa using (digit_ne (hint b hb)).2
  have hfilter : (plainText negative int frac).filter DecScan.isDigit = int ++ frac := by
    have hminus : DecScan.isDigit 45 = false := by decide
    have hpoint : DecScan.isDigit 46 = false := by decide
    unfold plainText
    cases negative <;> by_cases hf : frac = [] <;>
      simp [hf, hkeepInt, hkeepFrac, hminus, hpoint]
  have hplaces : ((plainText negative int frac).dropWhile fun b => b ≠ 46).length - 1 =
      frac.length := by
    have h := hdrop (if frac = [] then [] else 46 :: frac)
    unfold plainText
    cases negative with
    | true =>
        rw [if_pos rfl, List.append_assoc, List.cons_append, List.nil_append,
          List.dropWhile_cons_of_pos (by decide), h]
        by_cases hf : frac = [] <;> simp [hf]
    | false =>
        rw [if_neg Bool.false_ne_true, List.nil_append, h]
        by_cases hf : frac = [] <;> simp [hf]
  have hsign : ((plainText negative int frac).head? = some 45) ↔ negative = true := by
    cases negative with
    | true => simp [plainText]
    | false =>
        obtain ⟨first, rest, rfl⟩ := List.exists_cons_of_ne_nil hne
        simpa [plainText] using (digit_ne (hint first (by simp))).1
  simp only [decimalValue, hfilter, hplaces, hsign]

/-- A text parses to the number it stands for. -/
theorem Dec.parseBytes_value {bytes : Bytes} {d : Dec} (h : Dec.parseBytes bytes = .ok d) :
    d.toRat = decimalValue bytes := by
  obtain ⟨negative, int, frac, hne, hint, hfrac, rfl, hscale, hvalue⟩ := Dec.parseBytes_sound h
  rw [decimalValue_plain negative hne hint hfrac, Dec.toRat, hscale, hvalue]
  cases negative <;> simp

theorem Dec.mantissaAt_sound {d : Dec} {scale : Nat} {m : I128} (h : d.mantissaAt scale = .ok m) :
    d.scale ≤ scale ∧ m.val = d.mantissa.val * 10 ^ (scale - d.scale) := by
  unfold mantissaAt at h
  obtain ⟨hle, h⟩ : d.scale ≤ scale ∧ (pow10 (scale - d.scale) >>= fun factor =>
      okOr (d.mantissa.checkedMul factor) .overflow) = .ok m := by
    by_cases hle : d.scale ≤ scale
    · rw [if_pos hle] at h
      exact ⟨hle, h⟩
    · rw [if_neg hle] at h
      cases h
  obtain ⟨factor, hpow, h⟩ := except_bind_eq_ok.mp h
  have hmul := Bounded.ofInt?_eq_some_iff.mp (okOr_eq_ok.mp h)
  unfold pow10 at hpow
  split_ifs at hpow
  cases hpow
  exact ⟨hle, hmul⟩

namespace Increment

/-- Without rounding, only an exact quotient is returned. -/
theorem toWhole_exact_sound {floor : I128} {exact : Bool} {units : I64}
    (h : toWhole floor exact .exact = .ok units) : exact = true ∧ floor.val = units.val := by
  obtain ⟨whole, hround, h⟩ := except_bind_eq_ok.mp h
  cases exact with
  | false => simp [roundQuotient] at hround
  | true =>
      cases hround
      exact ⟨rfl, (Bounded.ofInt?_eq_some_iff.mp (okOr_eq_ok.mp h)).symm⟩

/-- Units without rounding: the numerator is so many denominators. -/
theorem toUnits_exact_sound {q : Increment} {value : Dec} {units : I64}
    (h : q.toUnits value .exact = .ok units) :
    q.numerator value = units.val * q.denominator value := by
  have hpos := q.denominator_pos value
  have hdivide : ∀ {floor : Int}, floor = q.numerator value / q.denominator value →
      q.numerator value % q.denominator value = 0 → floor = units.val →
      q.numerator value = units.val * q.denominator value := by
    rintro floor rfl hmod hfloor
    rw [← hfloor, Int.ediv_mul_cancel (Int.dvd_of_emod_eq_zero hmod)]
  unfold toUnits at h
  dsimp only at h
  cases hfast : q.rescaledI64 value (max value.scale q.scale) with
  | some pair =>
      obtain ⟨n, d⟩ := pair
      obtain ⟨hn, hd⟩ := rescaledI64_spec hfast
      rw [hfast] at h
      obtain ⟨floor, hfloor, h⟩ := except_bind_eq_ok.mp h
      obtain ⟨hexact, hunits⟩ := toWhole_exact_sound h
      rw [← hd] at hpos
      obtain ⟨floor', hfloor', hval⟩ := Bounded.checkedDivEuclid_of_pos n (by norm_num) hpos
      obtain rfl : floor' = floor := Option.some.inj (hfloor'.symm.trans (okOr_eq_ok.mp hfloor))
      rw [decide_eq_true_iff, rem_eq_zero_iff (by norm_num) hpos, hn, hd] at hexact
      rw [hn, hd] at hval
      exact hdivide hval hexact hunits
  | none =>
      rw [hfast] at h
      obtain ⟨n, hn, h⟩ := except_bind_eq_ok.mp h
      obtain ⟨d, hd, h⟩ := except_bind_eq_ok.mp h
      obtain ⟨floor, hfloor, h⟩ := except_bind_eq_ok.mp h
      obtain ⟨hexact, hunits⟩ := toWhole_exact_sound h
      have hn' : n.val = q.numerator value := (Dec.mantissaAt_sound hn).2
      have hd' : d.val = q.denominator value := (Dec.mantissaAt_sound hd).2
      rw [← hd'] at hpos
      obtain ⟨floor', hfloor', hval⟩ := Bounded.checkedDivEuclid_of_pos n (by norm_num) hpos
      obtain rfl : floor' = floor := Option.some.inj (hfloor'.symm.trans (okOr_eq_ok.mp hfloor))
      rw [decide_eq_true_iff, rem_eq_zero_iff (by norm_num) hpos, hn', hd'] at hexact
      rw [hn', hd'] at hval
      exact hdivide hval hexact hunits

theorem toRat_pos (q : Increment) : 0 < q.toRat := by
  have h : (0 : ℚ) < q.mantissa.val := by exact_mod_cast q.positive
  unfold toRat
  positivity

/-- The fraction of the two integers is the quotient of the two numbers. -/
theorem toRat_of_numerator {q : Increment} {value : Dec} {units : Int}
    (h : q.numerator value = units * q.denominator value) : value.toRat = units * q.toRat := by
  have hten : ∀ n : Nat, (10 : ℚ) ^ n ≠ 0 := fun n => by positivity
  have hpow : ∀ s : Nat, s ≤ max value.scale q.scale →
      (10 : ℚ) ^ max value.scale q.scale = 10 ^ (max value.scale q.scale - s) * 10 ^ s := by
    intro s hs
    rw [← pow_add, Nat.sub_add_cancel hs]
  have h' : (value.mantissa.val : ℚ) * 10 ^ (max value.scale q.scale - value.scale) =
      units * (q.mantissa.val * 10 ^ (max value.scale q.scale - q.scale)) := by
    have hcast := congrArg (Int.cast : Int → ℚ) h
    simpa [numerator, denominator] using hcast
  have hv := hpow value.scale (le_max_left ..)
  have hq := hpow q.scale (le_max_right ..)
  have hvalue : value.toRat = value.mantissa.val * 10 ^ (max value.scale q.scale - value.scale) /
      10 ^ max value.scale q.scale := by
    rw [Dec.toRat, hv, mul_comm (10 ^ _) (10 ^ value.scale), mul_div_mul_right _ _ (hten _)]
  have hincrement : q.toRat = q.mantissa.val * 10 ^ (max value.scale q.scale - q.scale) /
      10 ^ max value.scale q.scale := by
    rw [toRat, hq, mul_comm (10 ^ _) (10 ^ q.scale), mul_div_mul_right _ _ (hten _)]
  rw [hvalue, hincrement, h', mul_div_assoc]

/-- Units read without rounding are the exact quotient. -/
theorem parseUnitsBytes_exact {q : Increment} {text : Bytes} {units : I64}
    (h : q.parseUnitsBytes text .exact = .ok units) : decimalValue text = units.val * q.toRat := by
  rw [parseUnitsBytes_eq_general] at h
  obtain ⟨value, hparse, hunits⟩ := except_bind_eq_ok.mp h
  rw [← Dec.parseBytes_value hparse]
  exact toRat_of_numerator (toUnits_exact_sound hunits)

/-- No trailing zeros: the scale of an increment is the least that it has. -/
theorem scale_le_of_toRat {q q' : Increment} (h : q.toRat = q'.toRat) : q'.scale ≤ q.scale := by
  by_contra hlt
  obtain ⟨k, hk⟩ : ∃ k, q'.scale = q.scale + (k + 1) := ⟨q'.scale - q.scale - 1, by omega⟩
  have hten : ∀ n : Nat, (10 : ℚ) ^ n ≠ 0 := fun n => by positivity
  have hcross : (q.mantissa.val : ℚ) * 10 ^ (k + 1) = q'.mantissa.val := by
    rw [toRat, toRat, hk, pow_add, div_eq_div_iff (hten _) (mul_ne_zero (hten _) (hten _))] at h
    refine mul_right_cancel₀ (hten q.scale) ?_
    rw [← h]
    ring
  have hint : q.mantissa.val * 10 ^ (k + 1) = q'.mantissa.val := by exact_mod_cast hcross
  rcases q'.normalized with hzero | hdigit
  · omega
  · apply hdigit
    rw [← hint]
    exact Int.emod_eq_zero_of_dvd (Dvd.dvd.mul_left (dvd_pow_self 10 k.succ_ne_zero) _)

/-- Increments are written one way only. -/
theorem toRat_injective {q q' : Increment} (h : q.toRat = q'.toRat) : q = q' := by
  have hscale : q.scale = q'.scale := le_antisymm (scale_le_of_toRat h.symm) (scale_le_of_toRat h)
  have hten : (10 : ℚ) ^ q'.scale ≠ 0 := by positivity
  rw [toRat, toRat, hscale, div_left_inj' hten] at h
  have hmantissa : q.mantissa = q'.mantissa := Bounded.ext (by exact_mod_cast h)
  cases q
  cases q'
  simp only at hscale hmantissa
  subst hscale hmantissa
  rfl

/-- The units of a text for one increment are those for another exactly if the
increments are the same or the text is worth zero. -/
theorem units_of_other {q : Increment} (q' : Increment) {text : Bytes} {units : Int}
    (h : decimalValue text = units * q.toRat) :
    decimalValue text = units * q'.toRat ↔ q = q' ∨ decimalValue text = 0 := by
  constructor
  · intro h'
    rw [h'] at h
    by_cases hzero : units = 0
    · exact .inr (by simp [h', hzero])
    · have hne : (units : ℚ) ≠ 0 := by exact_mod_cast hzero
      exact .inl (toRat_injective (mul_left_cancel₀ hne h).symm)
  · rintro (rfl | hzero)
    · exact h
    · have hunits : (units : ℚ) = 0 := by
        rw [hzero] at h
        exact (mul_eq_zero.mp h.symm).resolve_right q.toRat_pos.ne'
      rw [hzero, hunits, zero_mul]

end Increment

end Bowst.Core
