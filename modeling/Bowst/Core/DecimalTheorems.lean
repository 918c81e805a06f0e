/-
Bowst.Core.DecimalTheorems — decimals as numbers and as text.

  §1 Parsing  — `parse_bytes` accepts plain decimals, and nothing else.
  §2 Text     — `write_to` writes a decimal that parses back.
  §3 Ordering — `Ord` and `Eq` are the order of the rational numbers.
-/
import Bowst.Core.TextTheorems
import Bowst.Core.ValueTheorems

namespace Bowst.Core

open Bowst.Lib

/-! ## §1 Parsing -/

theorem Dec.ext_of {d d' : Dec} (hscale : d.scale = d'.scale)
    (hmantissa : d.mantissa.val = d'.mantissa.val) : d = d' := by
  obtain ⟨m, s, _⟩ := d
  obtain ⟨m', s', _⟩ := d'
  obtain rfl : m = m' := Bounded.ext hmantissa
  obtain rfl : s = s' := hscale
  rfl

/-- The number of a text that was accepted, before its sign. -/
theorem Dec.finish_fits {negative : Bool} {len : Nat} {text int frac : Bytes} {st : DecScan} {d : Dec}
    (hst : DecScan.Scanned text int frac st) (h : Dec.finish negative len st = .ok d) :
    d.scale ≤ maxParseScale ∧ -(2 ^ 127 - 1) ≤ d.mantissa.val := by
  have hnonneg : 0 ≤ st.value.val := by rw [hst.value]; exact Int.natCast_nonneg _
  have hhi := st.value.le_hi
  unfold finish at h
  split_ifs at h with hempty hpoint hnegative
  · obtain ⟨m, hm, h⟩ := except_bind_eq_ok.mp h
    cases h
    have hneg := Bounded.ofInt?_eq_some_iff.mp (okOr_eq_ok.mp hm)
    exact ⟨st.scale_le, by simp only [hneg]; omega⟩
  · obtain ⟨m, hm, h⟩ := except_bind_eq_ok.mp h
    cases hm
    cases h
    exact ⟨st.scale_le, by dsimp only; omega⟩

/-- A parsed decimal has at most eighteen places, and its digits fit an `i128`
with either sign. -/
theorem Dec.parseBytes_fits {bytes : Bytes} {d : Dec} (h : Dec.parseBytes bytes = .ok d) :
    d.scale ≤ maxParseScale ∧ -(2 ^ 127 - 1) ≤ d.mantissa.val := by
  cases bytes with
  | nil => simp [Dec.parseBytes] at h
  | cons first rest =>
      rw [Dec.parseBytes] at h
      split_ifs at h with hminus
      · obtain ⟨st, hrun, h⟩ := except_bind_eq_ok.mp h
        obtain ⟨int, frac, hst⟩ := DecScan.run_scanned rest DecScan.start_scanned hrun
        exact Dec.finish_fits hst h
      · obtain ⟨st, hrun, h⟩ := except_bind_eq_ok.mp h
        obtain ⟨int, frac, hst⟩ := DecScan.run_scanned _ DecScan.start_scanned hrun
        exact Dec.finish_fits hst h

/-- The texts of decimals: a minus sign or none, digits, and a point with decimal
places behind it if there are any; no more places and no larger number than the
parser has room for. -/
structure PlainDecimal (negative : Bool) (int frac : Bytes) : Prop where
  int_ne : int ≠ []
  int_digits : AllDigits int
  frac_digits : AllDigits frac
  places : frac.length ≤ maxParseScale
  fits : foldDigits 0 (int ++ frac) ≤ 2 ^ 127 - 1

/-- **Parsing accepts exactly plain decimals**, and returns the number that the
digits write, with the sign, and the number of decimal places. -/
theorem parseBytes_ok_iff (bytes : Bytes) (d : Dec) : Dec.parseBytes bytes = .ok d ↔
    ∃ negative int frac, PlainDecimal negative int frac ∧ bytes = plainText negative int frac ∧
      d.scale = frac.length ∧
      d.mantissa.val = if negative then -(foldDigits 0 (int ++ frac) : Int)
        else (foldDigits 0 (int ++ frac) : Int) := by
  constructor
  · intro h
    obtain ⟨negative, int, frac, hne, hint, hfrac, htext, hscale, hvalue⟩ := Dec.parseBytes_sound h
    obtain ⟨hplaces, hlo⟩ := Dec.parseBytes_fits h
    have hhi := d.mantissa.le_hi
    have hsign : d.mantissa.val = if negative then -(foldDigits 0 (int ++ frac) : Int)
        else (foldDigits 0 (int ++ frac) : Int) := by
      cases negative <;> simpa using hvalue
    have hfits : foldDigits 0 (int ++ frac) ≤ 2 ^ 127 - 1 := by
      cases negative <;> simp at hsign <;> omega
    exact ⟨negative, int, frac, ⟨hne, hint, hfrac, by omega, hfits⟩, htext, hscale, hsign⟩
  · rintro ⟨negative, int, frac, hplain, rfl, hscale, hvalue⟩
    have hfits : (foldDigits 0 (int ++ frac) : Int) ≤ 2 ^ 127 - 1 := by
      have := hplain.fits
      omega
    obtain ⟨d', hparse, hscale', hvalue'⟩ := Dec.parseBytes_plain negative hplain.int_ne
      hplain.int_digits hplain.frac_digits hplain.places hfits
    rw [hparse, Dec.ext_of (hscale'.trans hscale.symm) (hvalue'.trans hvalue.symm)]

/-! ## §2 Text -/

/-- **A decimal is written in full and reads back.** Its text is a sign if it is
negative, digits, and as many decimal places as its scale. It fits a buffer of
`maxTextLen` bytes, any other buffer gets it exactly if it fits there, and what was
written parses to the same mantissa and scale. -/
theorem decimal_text_round_trips (d : Dec) : ∃ text : Bytes,
    (∃ int frac, text = plainText (decide (d.mantissa.val < 0)) int frac ∧ int ≠ [] ∧
      AllDigits int ∧ AllDigits frac ∧ frac.length = d.scale ∧
      foldDigits 0 (int ++ frac) = d.mantissa.val.natAbs) ∧
    d.writeTo maxTextLen = .ok text ∧
    (∀ cap, d.writeTo cap = if text.length ≤ cap then .ok text else .error .bufferTooSmall) ∧
    (d.scale ≤ maxParseScale → d.mantissa.val ≠ -2 ^ 127 → Dec.parseBytes text = .ok d) := by
  refine ⟨d.text, d.text_eq, ?_, d.writeTo_eq, Dec.parseBytes_text⟩
  rw [d.writeTo_eq, if_pos d.length_text]

/-! ## §3 Ordering -/

/-- Euclidean division compares like the number it divides. -/
theorem compare_divMod {T i j r s : Int} (hr : 0 ≤ r ∧ r < T) (hs : 0 ≤ s ∧ s < T) :
    (compare i j).then (compare r s) = compare (i * T + r) (j * T + s) := by
  rcases lt_trichotomy i j with hlt | heq | hgt
  · have hnext : (i + 1) * T ≤ j * T := mul_le_mul_of_nonneg_right (by omega) (by omega)
    rw [add_mul, one_mul] at hnext
    rw [compare_lt_iff_lt.mpr hlt, compare_lt_iff_lt.mpr (show i * T + r < j * T + s by omega)]
    rfl
  · subst heq
    rw [compare_eq_iff_eq.mpr (rfl : i = i)]
    rcases lt_trichotomy r s with hlt | heq | hgt
    · rw [compare_lt_iff_lt.mpr hlt, compare_lt_iff_lt.mpr (show i * T + r < i * T + s by omega)]
      rfl
    · rw [heq, compare_eq_iff_eq.mpr (rfl : s = s), compare_eq_iff_eq.mpr (rfl : i * T + s = _)]
      rfl
    · rw [compare_gt_iff_gt.mpr hgt, compare_gt_iff_gt.mpr (show i * T + r > i * T + s by omega)]
      rfl
  · have hnext : (j + 1) * T ≤ i * T := mul_le_mul_of_nonneg_right (by omega) (by omega)
    rw [add_mul, one_mul] at hnext
    rw [compare_gt_iff_gt.mpr hgt, compare_gt_iff_gt.mpr (show i * T + r > j * T + s by omega)]
    rfl

/-- Fractions of one denominator compare like their numerators. -/
theorem compare_div {T : ℚ} (hT : 0 < T) (m n : Int) :
    compare ((m : ℚ) / T) (n / T) = compare m n := by
  rcases lt_trichotomy m n with hlt | heq | hgt
  · rw [compare_lt_iff_lt.mpr hlt, compare_lt_iff_lt]
    exact div_lt_div_of_pos_right (by exact_mod_cast hlt) hT
  · subst heq
    simp
  · rw [compare_gt_iff_gt.mpr hgt, compare_gt_iff_gt]
    exact div_lt_div_of_pos_right (by exact_mod_cast hgt) hT

namespace Dec

/-- The mantissa at a scale no smaller. -/
def scaledTo (d : Dec) (scale : Nat) : Int := d.mantissa.val * 10 ^ (scale - d.scale)

theorem toRat_scaledTo {d : Dec} {scale : Nat} (h : d.scale ≤ scale) :
    d.toRat = d.scaledTo scale / 10 ^ scale := by
  have hpow : (10 : ℚ) ^ scale = 10 ^ d.scale * 10 ^ (scale - d.scale) := by
    rw [← pow_add, Nat.add_sub_cancel' h]
  have hne : (10 : ℚ) ^ (scale - d.scale) ≠ 0 := by positivity
  rw [toRat, scaledTo, hpow]
  push_cast
  rw [mul_div_mul_right _ _ hne]

/-- The fraction at a common scale is below one. -/
theorem split_scaled (d : Dec) {common : Nat} (h : d.scale ≤ common) :
    (0 ≤ d.split.2 * 10 ^ (common - d.scale) ∧ d.split.2 * 10 ^ (common - d.scale) < 10 ^ common) ∧
      d.scaledTo common = d.split.1 * 10 ^ common + d.split.2 * 10 ^ (common - d.scale) := by
  have hunit : (0 : Int) < 10 ^ d.scale := by positivity
  have hfactor : (0 : Int) < 10 ^ (common - d.scale) := by positivity
  have hpow : (10 : Int) ^ common = 10 ^ d.scale * 10 ^ (common - d.scale) := by
    rw [← pow_add, Nat.add_sub_cancel' h]
  have hnonneg : 0 ≤ d.split.2 := Int.emod_nonneg _ (ne_of_gt hunit)
  have hlt : d.split.2 < 10 ^ d.scale := Int.emod_lt_of_pos _ hunit
  refine ⟨⟨mul_nonneg hnonneg (le_of_lt hfactor), ?_⟩, ?_⟩
  · rw [hpow]
    exact mul_lt_mul_of_pos_right hlt hfactor
  · have hdivision : d.split.1 * 10 ^ d.scale + d.split.2 = d.mantissa.val := by
      rw [mul_comm]
      exact Int.mul_ediv_add_emod _ _
    rw [scaledTo, ← hdivision, hpow]
    ring

/-- Rescaling a fraction stays far below the end of an `i128`. -/
theorem saturatingMul_split (d : Dec) {common : Nat} (h : d.scale ≤ common) (hmax : common ≤ maxScale) :
    saturatingMul d.split.2 (10 ^ (common - d.scale)) = d.split.2 * 10 ^ (common - d.scale) := by
  obtain ⟨⟨hnonneg, hlt⟩, -⟩ := d.split_scaled h
  have hten : (10 : Int) ^ common ≤ 10 ^ 36 := ten_pow_le (by unfold maxScale at hmax; omega)
  have hroom : (10 : Int) ^ 36 ≤ 2 ^ 127 - 1 := by norm_num
  rw [saturatingMul, min_eq_left (by omega), max_eq_right (by omega)]

/-- `Ord::cmp` compares the numbers. -/
theorem cmp_eq_compare (a b : Dec) : a.cmp b = compare a.toRat b.toRat := by
  unfold cmp
  by_cases hscale : a.scale = b.scale
  · have hpos : (0 : ℚ) < 10 ^ b.scale := by positivity
    rw [if_pos hscale, toRat, toRat, hscale, compare_div hpos]
  · have ha : a.scale ≤ max a.scale b.scale := le_max_left ..
    have hb : b.scale ≤ max a.scale b.scale := le_max_right ..
    have hmax : max a.scale b.scale ≤ maxScale := max_le a.scale_le b.scale_le
    have hpos : (0 : ℚ) < 10 ^ max a.scale b.scale := by positivity
    obtain ⟨hfracA, hsumA⟩ := a.split_scaled ha
    obtain ⟨hfracB, hsumB⟩ := b.split_scaled hb
    rw [if_neg hscale, toRat_scaledTo ha, toRat_scaledTo hb, compare_div hpos]
    dsimp only
    rw [saturatingMul_split a ha hmax, saturatingMul_split b hb hmax, compare_divMod hfracA hfracB,
      hsumA, hsumB]

instance : Std.OrientedCmp Dec.cmp where
  eq_swap {a b} := by
    rw [cmp_eq_compare, cmp_eq_compare]
    exact Std.OrientedCmp.eq_swap

instance : Std.TransCmp Dec.cmp where
  isLE_trans {a b c} hab hbc := by
    rw [cmp_eq_compare] at hab hbc ⊢
    exact Std.TransCmp.isLE_trans hab hbc

theorem eq_iff_toRat {a b : Dec} : a.eq b = true ↔ a.toRat = b.toRat := by
  rw [Dec.eq, decide_eq_true_iff, cmp_eq_compare, compare_eq_iff_eq]

end Dec

/-- **The order of decimals is the order of the numbers they write.** `Ord::cmp`
compares the rationals exactly, whatever the scales; so it is a total order whose
equality is `PartialEq::eq`; and rescaling the fractions never saturates. -/
theorem dec_order_is_rational_order :
    (∀ a b : Dec, a.cmp b = compare (a.mantissa.val / 10 ^ a.scale : ℚ)
      (b.mantissa.val / 10 ^ b.scale : ℚ)) ∧
    Std.TransCmp Dec.cmp ∧ Equivalence (fun a b : Dec => a.eq b = true) ∧
    (∀ a b : Dec, a.eq b = true ↔ a.cmp b = .eq) ∧
    ∀ a b : Dec, Dec.saturatingMul a.split.2 (10 ^ (max a.scale b.scale - a.scale)) =
        a.split.2 * 10 ^ (max a.scale b.scale - a.scale) ∧
      Dec.saturatingMul b.split.2 (10 ^ (max a.scale b.scale - b.scale)) =
        b.split.2 * 10 ^ (max a.scale b.scale - b.scale) := by
  refine ⟨Dec.cmp_eq_compare, inferInstance, ⟨?_, ?_, ?_⟩, ?_, ?_⟩
  · intro a
    exact Dec.eq_iff_toRat.mpr rfl
  · intro a b h
    exact Dec.eq_iff_toRat.mpr (Dec.eq_iff_toRat.mp h).symm
  · intro a b c hab hbc
    exact Dec.eq_iff_toRat.mpr ((Dec.eq_iff_toRat.mp hab).trans (Dec.eq_iff_toRat.mp hbc))
  · intro a b
    rw [Dec.eq, decide_eq_true_iff]
  · intro a b
    have hmax : max a.scale b.scale ≤ maxScale := max_le a.scale_le b.scale_le
    exact ⟨a.saturatingMul_split (le_max_left ..) hmax, b.saturatingMul_split (le_max_right ..) hmax⟩

end Bowst.Core
