/-
Bowst.Core.TextTheorems — numbers read back from their own text.

  §1 Integers   — digits of an unsigned integer.
  §2 Decimals   — what `write_to` writes, and that parsing returns it.
  §3 Increments — an increment reads back from its text.
  §4 Lines      — lines of a text read back.
-/
import Bowst.Core.FixedTheorems
import Bowst.Core.Text

namespace Bowst.Core

open Bowst.Lib

/-! ## §1 Integers -/

theorem toNat_ofNat_digit {c : Char} (h : c.isDigit = true) :
    (UInt8.ofNat c.toNat).toNat = c.toNat := by
  have hle : c.toNat ≤ 57 := (Char.isDigit_iff_toNat.mp h).2
  exact UInt8.toNat_ofNat_of_lt' (lt_of_le_of_lt hle (by decide))

/-- Digit characters, as bytes. -/
theorem ascii_digits : ∀ (cs : List Char) (v : Nat), (∀ c ∈ cs, c.isDigit = true) →
    AllDigits (cs.map fun c => UInt8.ofNat c.toNat) ∧
      foldDigits v (cs.map fun c => UInt8.ofNat c.toNat) = Nat.ofDigitChars 10 cs v := by
  intro cs
  induction cs with
  | nil => intro v _; exact ⟨by simp [AllDigits], rfl⟩
  | cons c cs ih =>
      intro v h
      have hc := h c (by simp)
      have hbyte := toNat_ofNat_digit hc
      obtain ⟨hall, hfold⟩ := ih (10 * v + (c.toNat - 48)) fun c' hc' => h c' (by simp [hc'])
      constructor
      · intro byte hmem
        rcases List.mem_cons.mp hmem with rfl | hmem
        · rw [isDigit_iff, hbyte]
          exact Char.isDigit_iff_toNat.mp hc
        · exact hall byte hmem
      · rw [List.map_cons, foldDigits_cons, hbyte, Nat.ofDigitChars_cons, Nat.mul_comm v 10]
        exact hfold

theorem natText_spec (n : Nat) :
    natText n ≠ [] ∧ AllDigits (natText n) ∧ foldDigits 0 (natText n) = n := by
  have hlist : natText n = (Nat.toDigits 10 n).map fun c => UInt8.ofNat c.toNat := by
    rw [natText, ascii, Nat.toString_eq_repr, Nat.toList_repr]
  have hdigits := ascii_digits (Nat.toDigits 10 n) 0 fun c hc =>
    Nat.isDigit_of_mem_toDigits (by decide) (by decide) hc
  rw [hlist]
  refine ⟨by simp [Nat.toDigits_ne_nil], hdigits.1, ?_⟩
  rw [hdigits.2, Nat.ofDigitChars_ten_toDigits]

/-- The text of a number has no zero before its other digits. -/
theorem natText_leading {n : Nat} (h : 1 < (natText n).length) : (natText n).head? ≠ some 48 := by
  obtain ⟨-, hdigits, hvalue⟩ := natText_spec n
  have hlength : (natText n).length = (Nat.toDigits 10 n).length := by
    rw [natText, ascii, List.length_map, Nat.toString_eq_repr, Nat.toList_repr]
  intro hzero
  obtain ⟨rest, hrest⟩ := List.head?_eq_some_iff.mp hzero
  -- Without the zero, the number would have one digit less.
  rw [hrest] at hdigits hvalue
  have hlt : n < 10 ^ rest.length := by
    rw [← hvalue, foldDigits_cons]
    exact foldDigits_lt fun b hb => hdigits b (List.mem_cons_of_mem _ hb)
  rw [hrest, List.length_cons] at hlength h
  have hshort := (Nat.length_toDigits_le_iff (b := 10) (by decide) (by omega : 0 < rest.length)).mpr hlt
  omega

/-- Text of digits only is read as their value. -/
theorem parseUnsigned_digits {max : Nat} {digits : Bytes} (hne : digits ≠ [])
    (hall : AllDigits digits) (hle : foldDigits 0 digits ≤ max) :
    parseUnsigned max digits = some (foldDigits 0 digits) := by
  have hplus : ∀ rest, digits ≠ 43 :: rest := by
    rintro rest rfl
    exact absurd (hall 43 (by simp)) (by decide)
  have hany : digits.any (fun byte => !DecScan.isDigit byte) = false := by
    simpa [AllDigits] using hall
  unfold parseUnsigned
  split
  · rename_i rest
    exact absurd rfl (hplus rest)
  · simp only [hne, hany, Bool.false_eq_true, or_false, if_false]
    exact if_pos hle

/-- An unsigned integer reads back from its text. -/
theorem parseUnsigned_natText {max n : Nat} (h : n ≤ max) :
    parseUnsigned max (natText n) = some n := by
  obtain ⟨hne, hall, hvalue⟩ := natText_spec n
  rw [parseUnsigned_digits hne hall (by omega), hvalue]

/-! ## §2 Decimals -/

theorem revDigits_stop {minDigits slots len rest : Nat} (h : ¬ (rest > 0 ∨ len < minDigits)) :
    Dec.revDigits minDigits slots len rest = .ok [] := by
  rw [Dec.revDigits.eq_def]
  exact if_neg h

theorem revDigits_more {minDigits slots len rest : Nat} {ds : Bytes}
    (h : rest > 0 ∨ len < minDigits)
    (htail : Dec.revDigits minDigits slots (len + 1) (rest / 10) = .ok ds) :
    Dec.revDigits minDigits (slots + 1) len rest =
      .ok ((48 + UInt8.ofNat (rest % 10)) :: ds) := by
  rw [Dec.revDigits.eq_def]
  dsimp only
  rw [if_pos h, htail]
  rfl

theorem toNat_digit (n : Nat) : (48 + UInt8.ofNat (n % 10)).toNat = 48 + n % 10 := by
  have hlt : n % 10 < 10 := Nat.mod_lt _ (by decide)
  rw [UInt8.toNat_add, UInt8.toNat_ofNat_of_lt' (lt_trans hlt (by decide))]
  exact Nat.mod_eq_of_lt (show 48 + n % 10 < 256 by omega)

/-- The digit loop: `n` slots are enough for a value below `10^n` that needs no
more than `n` further digits. -/
theorem revDigits_spec (minDigits : Nat) : ∀ (n slots len rest : Nat), n ≤ slots → rest < 10 ^ n →
    minDigits ≤ len + n →
    ∃ ds, Dec.revDigits minDigits slots len rest = .ok ds ∧ AllDigits ds ∧
      foldDigits 0 ds.reverse = rest ∧ minDigits ≤ len + ds.length ∧ ds.length ≤ n := by
  intro n
  induction n with
  | zero =>
      intro slots len rest _ hrest hmin
      have hzero : rest = 0 := by simpa using hrest
      have hstop : ¬ (rest > 0 ∨ len < minDigits) := by omega
      refine ⟨[], ?_, by simp [AllDigits], by simp [hzero], by simpa using hmin, le_rfl⟩
      exact revDigits_stop hstop
  | succ n ih =>
      intro slots len rest hslots hrest hmin
      by_cases hmore : rest > 0 ∨ len < minDigits
      · cases slots with
        | zero => omega
        | succ slots =>
            have hquot : rest / 10 < 10 ^ n := by
              rw [Nat.div_lt_iff_lt_mul (by decide), ← pow_succ]
              exact hrest
            obtain ⟨ds, heq, hall, hvalue, hlen, hle⟩ :=
              ih slots (len + 1) (rest / 10) (by omega) hquot (by omega)
            refine ⟨_, revDigits_more hmore heq, ?_, ?_, ?_, ?_⟩
            · intro byte hmem
              rcases List.mem_cons.mp hmem with rfl | hmem
              · rw [isDigit_iff, toNat_digit]
                omega
              · exact hall byte hmem
            · rw [List.reverse_cons, foldDigits_append, hvalue, foldDigits_cons, foldDigits_nil,
                toNat_digit]
              omega
            · simp only [List.length_cons]
              omega
            · simp only [List.length_cons]
              omega
      · have hstop : rest = 0 ∧ minDigits ≤ len := by omega
        refine ⟨[], ?_, by simp [AllDigits], by simp [hstop.1], by simpa using hstop.2,
          Nat.zero_le _⟩
        exact revDigits_stop hmore

/-- Every decimal has digits that fit the scratch array, the integer digit among
them. -/
theorem revDigits_dec (d : Dec) :
    ∃ ds, Dec.revDigits (d.scale + 1) maxTextLen 0 d.mantissa.val.natAbs = .ok ds ∧
      AllDigits ds.reverse ∧ foldDigits 0 ds.reverse = d.mantissa.val.natAbs ∧
      d.scale < ds.length ∧ ds.length ≤ 39 := by
  have hlo := d.mantissa.lo_le
  have hhi := d.mantissa.le_hi
  have hvalue : d.mantissa.val.natAbs < 10 ^ 39 :=
    lt_of_le_of_lt (show d.mantissa.val.natAbs ≤ 2 ^ 127 by omega) (by norm_num)
  have hscale : d.scale ≤ 36 := d.scale_le
  obtain ⟨ds, heq, hall, hfold, hmin, hlen⟩ := revDigits_spec (d.scale + 1) 39 maxTextLen 0
    d.mantissa.val.natAbs (by decide) hvalue (by omega)
  refine ⟨ds, heq, ?_, hfold, by omega, hlen⟩
  intro byte hmem
  exact hall byte (List.mem_reverse.mp hmem)

/-- Digits without a point among them. -/
theorem flatMap_zipIdx_none (p : Nat → Prop) [DecidablePred p] : ∀ (digits : Bytes) (k : Nat),
    (∀ i, k ≤ i → ¬ p i) →
    ((digits.zipIdx k).flatMap fun (digit, i) => if p i then [46, digit] else [digit]) = digits := by
  intro digits
  induction digits with
  | nil => intro k _; rfl
  | cons digit digits ih =>
      intro k hp
      rw [List.zipIdx_cons, List.flatMap_cons, ih (k + 1) fun i hi => hp i (by omega)]
      simp [hp k le_rfl]

/-- A byte put in front of the digit at `pointAt`. -/
theorem flatMap_zipIdx_point (pointAt : Nat) : ∀ (digits : Bytes) (k : Nat), k ≤ pointAt →
    pointAt < k + digits.length →
    ((digits.zipIdx k).flatMap fun (digit, i) => if i = pointAt then [46, digit] else [digit]) =
      digits.take (pointAt - k) ++ 46 :: digits.drop (pointAt - k) := by
  intro digits
  induction digits with
  | nil =>
      intro k hk hlt
      rw [List.length_nil] at hlt
      omega
  | cons digit digits ih =>
      intro k hk hlt
      rw [List.length_cons] at hlt
      rw [List.zipIdx_cons, List.flatMap_cons]
      by_cases hpoint : k = pointAt
      · subst hpoint
        rw [flatMap_zipIdx_none (fun i => i = k) digits (k + 1) fun i hi => by omega]
        simp
      · have hsub : pointAt - k = (pointAt - (k + 1)) + 1 := by omega
        rw [ih (k + 1) (by omega) (by omega), hsub, List.take_succ_cons, List.drop_succ_cons]
        simp [hpoint]

/-- Text that fits is pushed. -/
theorem pushAll_eq (cap : Nat) : ∀ (text : Bytes) (pos : Nat), pos + text.length ≤ cap →
    Dec.pushAll cap pos text = .ok (pos + text.length) := by
  intro text
  induction text with
  | nil => intro pos _; rfl
  | cons byte text ih =>
      intro pos h
      rw [List.length_cons] at h ⊢
      rw [Dec.pushAll, if_pos (by omega), ih (pos + 1) (by omega)]
      exact congrArg Except.ok (by omega)

/-- What is written is the plain text of the digits. -/
theorem Dec.textOf_eq (d : Dec) {digits : Bytes} (h : d.scale < digits.length) :
    d.textOf digits = plainText (decide (d.mantissa.val < 0))
      (digits.take (digits.length - d.scale)) (digits.drop (digits.length - d.scale)) := by
  have hsign : (if d.mantissa.val < 0 then [45] else []) =
      (if decide (d.mantissa.val < 0) then [45] else ([] : Bytes)) := by simp
  rw [textOf, plainText, hsign, List.append_assoc]
  refine congrArg _ ?_
  by_cases hzero : d.scale = 0
  · have hplain : (digits.zipIdx.flatMap fun (digit, i) =>
        if i = digits.length - d.scale ∧ d.scale > 0 then [46, digit] else [digit]) = digits :=
      flatMap_zipIdx_none (fun i => i = digits.length - d.scale ∧ d.scale > 0) digits 0
        fun i _ => by omega
    rw [hplain, hzero, Nat.sub_zero, List.drop_length, List.take_length]
    simp
  · have hdrop : digits.drop (digits.length - d.scale) ≠ [] := by
      rw [Ne, List.drop_eq_nil_iff]
      omega
    have hpoint := flatMap_zipIdx_point (digits.length - d.scale) digits 0 (by omega) (by omega)
    rw [Nat.sub_zero] at hpoint
    rw [if_neg hdrop, ← hpoint]
    simp [Nat.pos_of_ne_zero hzero]

/-- Text that does not fit is not written. -/
theorem pushAll_short (cap : Nat) : ∀ (text : Bytes) (pos : Nat), pos ≤ cap →
    cap < pos + text.length → Dec.pushAll cap pos text = .error .bufferTooSmall := by
  intro text
  induction text with
  | nil =>
      intro pos hpos h
      rw [List.length_nil] at h
      omega
  | cons byte text ih =>
      intro pos hpos h
      rw [List.length_cons] at h
      rw [Dec.pushAll]
      by_cases hroom : pos < cap
      · rw [if_pos hroom]
        exact ih (pos + 1) hroom (by omega)
      · rw [if_neg hroom]

/-- Digits of a decimal, as text: a sign and a point at most besides them. -/
theorem Dec.length_textOf (d : Dec) {digits : Bytes} (h : d.scale < digits.length) :
    (d.textOf digits).length ≤ digits.length + 2 := by
  have hsign : (if decide (d.mantissa.val < 0) then [45] else ([] : Bytes)).length ≤ 1 := by
    split <;> decide
  have hpoint : ∀ frac : Bytes, (if frac = [] then [] else 46 :: frac).length ≤ frac.length + 1 := by
    intro frac
    split <;> simp
  have hfrac := hpoint (digits.drop (digits.length - d.scale))
  rw [d.textOf_eq h, plainText, List.length_append, List.length_append, List.length_take]
  rw [List.length_drop] at hfrac
  omega

/-- What is written: the text of the digits, if it fits. -/
theorem Dec.writeTo_digits {d : Dec} {ds : Bytes}
    (h : Dec.revDigits (d.scale + 1) maxTextLen 0 d.mantissa.val.natAbs = .ok ds) (cap : Nat) :
    d.writeTo cap = if (d.textOf ds.reverse).length ≤ cap then .ok (d.textOf ds.reverse)
      else .error .bufferTooSmall := by
  rw [writeTo, h]
  by_cases hfits : (d.textOf ds.reverse).length ≤ cap
  · have hpush := pushAll_eq cap (d.textOf ds.reverse) 0 (by omega)
    rw [if_pos hfits]
    simp only [bind, Except.bind, hpush, Nat.zero_add, List.take_length]
  · have hpush := pushAll_short cap (d.textOf ds.reverse) 0 (Nat.zero_le _) (by omega)
    rw [if_neg hfits]
    simp only [bind, Except.bind, hpush]

/-- The text is the text of the digits, and no longer than its bound. -/
theorem Dec.text_digits {d : Dec} {ds : Bytes}
    (h : Dec.revDigits (d.scale + 1) maxTextLen 0 d.mantissa.val.natAbs = .ok ds)
    (hscale : d.scale < ds.length) (hlen : ds.length ≤ 39) :
    d.text = d.textOf ds.reverse ∧ d.text.length ≤ maxTextLen := by
  have hfits : (d.textOf ds.reverse).length ≤ maxTextLen := by
    have hbound : (d.textOf ds.reverse).length ≤ ds.reverse.length + 2 :=
      d.length_textOf (by simpa using hscale)
    rw [List.length_reverse] at hbound
    exact le_trans hbound (by unfold maxTextLen; omega)
  have htext : d.text = d.textOf ds.reverse := by
    rw [text, display, writeTo_digits h, if_pos hfits]
    rfl
  exact ⟨htext, by rw [htext]; exact hfits⟩

/-- A decimal is written as its text, if that fits. -/
theorem Dec.writeTo_eq (d : Dec) (cap : Nat) :
    d.writeTo cap = if d.text.length ≤ cap then .ok d.text else .error .bufferTooSmall := by
  obtain ⟨ds, hdigits, _, _, hscale, hlen⟩ := revDigits_dec d
  rw [writeTo_digits hdigits, (text_digits hdigits hscale hlen).1]

theorem Dec.length_text (d : Dec) : d.text.length ≤ maxTextLen := by
  obtain ⟨ds, hdigits, _, _, hscale, hlen⟩ := revDigits_dec d
  exact (text_digits hdigits hscale hlen).2

/-- The text of a decimal: its digits, with as many decimal places as its scale. -/
theorem Dec.text_eq (d : Dec) : ∃ int frac, d.text = plainText (decide (d.mantissa.val < 0)) int frac ∧
    int ≠ [] ∧ AllDigits int ∧ AllDigits frac ∧ frac.length = d.scale ∧
    foldDigits 0 (int ++ frac) = d.mantissa.val.natAbs := by
  obtain ⟨ds, hdigits, hall, hfold, hscale, hlen⟩ := revDigits_dec d
  have hrev : d.scale < ds.reverse.length := by rw [List.length_reverse]; exact hscale
  have htext := d.textOf_eq hrev
  rw [← (text_digits hdigits hscale hlen).1] at htext
  have hsplit := List.take_append_drop (ds.reverse.length - d.scale) ds.reverse
  generalize ds.reverse.take (ds.reverse.length - d.scale) = int at htext hsplit
  generalize hfrac : ds.reverse.drop (ds.reverse.length - d.scale) = frac at htext hsplit
  have hplaces : frac.length = d.scale := by
    rw [← hfrac, List.length_drop]
    omega
  have hlengths : int.length + frac.length = ds.length := by
    rw [← List.length_append, hsplit, List.length_reverse]
  refine ⟨int, frac, htext, ?_, ?_, ?_, hplaces, ?_⟩
  · rintro rfl
    rw [List.length_nil] at hlengths
    omega
  · exact fun byte hmem => hall byte (by rw [← hsplit]; exact List.mem_append_left _ hmem)
  · exact fun byte hmem => hall byte (by rw [← hsplit]; exact List.mem_append_right _ hmem)
  · rw [hsplit, hfold]

/-- A decimal reads back from its text, if it has no more decimal places than are
read and its digits alone fit. -/
theorem Dec.parseBytes_text {d : Dec} (hscale : d.scale ≤ maxParseScale)
    (hmin : d.mantissa.val ≠ -2 ^ 127) : Dec.parseBytes d.text = .ok d := by
  obtain ⟨int, frac, htext, hne, hint, hfrac, hplaces, hvalue⟩ := d.text_eq
  have hlo := d.mantissa.lo_le
  have hhi := d.mantissa.le_hi
  obtain ⟨d', hparse, hscale', hmantissa⟩ := Dec.parseBytes_plain (decide (d.mantissa.val < 0)) hne
    hint hfrac (by omega) (by omega)
  have hsame : d'.mantissa = d.mantissa := by
    refine Bounded.ext ?_
    rw [hmantissa, hvalue]
    by_cases hneg : d.mantissa.val < 0
    · simp only [hneg, decide_true, if_true]
      omega
    · simp only [hneg, decide_false, Bool.false_eq_true, if_false]
      omega
  obtain ⟨mantissa', scale', _⟩ := d'
  obtain ⟨mantissa, scale, _⟩ := d
  rw [htext, hparse]
  obtain rfl : mantissa' = mantissa := hsame
  obtain rfl : scale' = scale := hscale'.trans hplaces
  rfl

/-! ## §3 Increments -/

/-- There is nothing to drop from an increment's own mantissa. -/
theorem normalize_self : ∀ {scale : Nat} {mantissa : Int}, scale = 0 ∨ mantissa % 10 ≠ 0 →
    normalize scale mantissa = (mantissa, scale) := by
  intro scale mantissa h
  cases scale with
  | zero => rfl
  | succ scale => rw [normalize, if_neg (h.resolve_left (Nat.succ_ne_zero scale))]

/-- An increment reads back from its text. -/
theorem Increment.parse_text (q : Increment) : Increment.parse q.text = .ok q := by
  have hlo := q.mantissa.lo_le
  have hdec : Dec.parseBytes q.text = .ok q.asDec :=
    Dec.parseBytes_text q.scale_le (show q.mantissa.val ≠ -2 ^ 127 by have := q.positive; omega)
  have hcast : (q.asDec.mantissa.cast? : Option I64) = some q.mantissa :=
    Bounded.ofInt?_eq_some_iff.mpr rfl
  have hnormal := normalize_self q.normalized
  rw [parse, hdec]
  simp only [bind, Except.bind, hcast, okOr]
  show Increment.new q.mantissa q.scale = .ok q
  rw [Increment.new, dif_neg (not_le.mpr q.positive), dif_neg (not_lt.mpr q.scale_le)]
  simp only [hnormal]

/-! ## §4 Lines -/

/-- Lines with their endings, split at the endings. -/
theorem splitOn_unlines : ∀ (ls : List Bytes), (∀ line ∈ ls, (10 : UInt8) ∉ line) →
    (unlines ls).splitOn 10 = ls ++ [[]] := by
  intro ls
  induction ls with
  | nil => intro _; rfl
  | cons line ls ih =>
      intro h
      have hrest := ih fun other hother => h other (List.mem_cons_of_mem _ hother)
      rw [unlines, List.flatMap_cons, List.append_assoc]
      show (line ++ 10 :: unlines ls).splitOn 10 = _
      rw [List.splitOn_append_cons_self_of_not_mem (h line (List.mem_cons_self ..)), hrest]
      rfl

/-- Lines without line feeds and without a carriage return at the end read back. -/
theorem lines_unlines {ls : List Bytes} (hfeed : ∀ line ∈ ls, (10 : UInt8) ∉ line)
    (hreturn : ∀ line ∈ ls, line.getLast? ≠ some 13) : lines (unlines ls) = ls := by
  have hstrip : ls.map stripReturn = ls := by
    refine (List.map_congr_left fun line hline => ?_).trans (List.map_id ls)
    rw [stripReturn, if_neg (hreturn line hline)]
    rfl
  rw [lines, splitOn_unlines ls hfeed]
  simp [hstrip]

end Bowst.Core
