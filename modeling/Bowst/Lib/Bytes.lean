/-
Bowst.Lib.Bytes — reading and writing inside byte buffers.

  §1 little-endian integers of a fixed number of bytes, and text as bytes;
  §2 `slice` and `splice`: reading and overwriting a range of a list;
  §3 ranges of a circular buffer, by unbounded positions: two ranges that lie in
     one window of the buffer's size do not meet;
  §4 counters that wrap around: distances and equality of positions are still
     right while they are closer than the modulus.
-/
import Mathlib.Data.Nat.ModEq
import Mathlib.Tactic.Ring

namespace Bowst.Lib

/-! ## §1 Integers and text -/

/-- The `k` low bytes of `n`, least significant first. -/
def toLe : Nat → Nat → List UInt8
  | 0, _ => []
  | k + 1, n => UInt8.ofNat (n % 256) :: toLe k (n / 256)

/-- The integer that bytes spell, least significant first. -/
def ofLe : List UInt8 → Nat
  | [] => 0
  | byte :: rest => byte.toNat + 256 * ofLe rest

@[simp] theorem length_toLe : ∀ (k n : Nat), (toLe k n).length = k := by
  intro k
  induction k with
  | zero => intro n; rfl
  | succ k ih => intro n; simp [toLe, ih]

theorem ofLe_toLe : ∀ (k n : Nat), ofLe (toLe k n) = n % 256 ^ k := by
  intro k
  induction k with
  | zero => intro n; simp [toLe, ofLe, Nat.mod_one]
  | succ k ih =>
      intro n
      have hbyte : (UInt8.ofNat (n % 256)).toNat = n % 256 := by
        rw [UInt8.toNat_ofNat']
        exact Nat.mod_mod ..
      rw [toLe, ofLe, ih, hbyte, pow_succ', Nat.mod_mul]

theorem ofLe_lt (bytes : List UInt8) : ofLe bytes < 256 ^ bytes.length := by
  induction bytes with
  | nil => simp [ofLe]
  | cons byte rest ih =>
      have hbyte := byte.toNat_lt
      rw [ofLe, List.length_cons, pow_succ']
      omega

theorem toLe_ofLe (bytes : List UInt8) : toLe bytes.length (ofLe bytes) = bytes := by
  induction bytes with
  | nil => rfl
  | cons byte rest ih =>
      have hbyte := byte.toNat_lt
      have hlow : (byte.toNat + 256 * ofLe rest) % 256 = byte.toNat := by omega
      have hhigh : (byte.toNat + 256 * ofLe rest) / 256 = ofLe rest := by omega
      rw [ofLe, List.length_cons, toLe, hlow, hhigh, ih, UInt8.ofNat_toNat]

/-- The bytes of an ASCII text. -/
def ascii (text : String) : List UInt8 := text.toList.map fun c => UInt8.ofNat c.toNat

/-- Whether bytes are the UTF-8 encoding of some text, by the ranges of RFC 3629. -/
def validUtf8 : List UInt8 → Bool
  | [] => true
  | a :: rest =>
      if a < 0x80 then validUtf8 rest
      else
        match rest with
        | [] => false
        | b :: rest =>
            if 0xC2 ≤ a ∧ a ≤ 0xDF then decide (0x80 ≤ b ∧ b ≤ 0xBF) && validUtf8 rest
            else
              match rest with
              | [] => false
              | c :: rest =>
                  if 0xE0 ≤ a ∧ a ≤ 0xEF then
                    -- No overlong forms, and no surrogates.
                    let low := if a = 0xE0 then 0xA0 else 0x80
                    let high := if a = 0xED then 0x9F else 0xBF
                    decide (low ≤ b ∧ b ≤ high ∧ 0x80 ≤ c ∧ c ≤ 0xBF) && validUtf8 rest
                  else
                    match rest with
                    | [] => false
                    | d :: rest =>
                        let low := if a = 0xF0 then 0x90 else 0x80
                        let high := if a = 0xF4 then 0x8F else 0xBF
                        decide (0xF0 ≤ a ∧ a ≤ 0xF4 ∧ low ≤ b ∧ b ≤ high ∧ 0x80 ≤ c ∧ c ≤ 0xBF ∧
                          0x80 ≤ d ∧ d ≤ 0xBF) && validUtf8 rest

theorem validUtf8_of_ascii {bytes : List UInt8} (h : ∀ byte ∈ bytes, byte < 0x80) :
    validUtf8 bytes = true := by
  induction bytes with
  | nil => rfl
  | cons byte rest ih =>
      rw [validUtf8.eq_def]
      dsimp only
      rw [if_pos (h byte (by simp))]
      exact ih fun b hb => h b (by simp [hb])

/-- Texts one after the other are a text. -/
theorem validUtf8_append {a b : List UInt8} (ha : validUtf8 a = true) (hb : validUtf8 b = true) :
    validUtf8 (a ++ b) = true := by
  fun_induction validUtf8 a with
  | case1 => exact hb
  | case2 lead rest hlead ih =>
      rw [List.cons_append, validUtf8.eq_def]
      simp only [if_pos hlead]
      exact ih ha
  | case4 lead hlead c rest h2 ih =>
      rw [List.cons_append, List.cons_append, validUtf8.eq_def]
      simp only [if_neg hlead, if_pos h2, Bool.and_eq_true] at ha ⊢
      exact ⟨ha.1, ih ha.2⟩
  | case6 lead hlead c h2 d rest h3 low high ih =>
      rw [List.cons_append, List.cons_append, List.cons_append, validUtf8.eq_def]
      simp only [if_neg hlead, if_neg h2, if_pos h3, Bool.and_eq_true] at ha ⊢
      exact ⟨ha.1, ih ha.2⟩
  | case8 lead hlead c h2 d h3 e rest low high ih =>
      rw [List.cons_append, List.cons_append, List.cons_append, List.cons_append, validUtf8.eq_def]
      simp only [if_neg hlead, if_neg h2, if_neg h3, Bool.and_eq_true] at ha ⊢
      exact ⟨ha.1, ih ha.2⟩
  | case3 | case5 | case7 => simp at ha

/-! ## §2 Slices -/

section Slice

variable {α : Type*}

/-- `len` elements from `start`. -/
def slice (xs : List α) (start len : Nat) : List α := (xs.drop start).take len

/-- Overwrites the elements from `start` with `ys`. -/
def splice (xs : List α) (start : Nat) (ys : List α) : List α :=
  xs.take start ++ ys ++ xs.drop (start + ys.length)

theorem length_slice {xs : List α} {start len : Nat} (h : start + len ≤ xs.length) :
    (slice xs start len).length = len := by
  simp [slice]; omega

theorem length_splice {xs ys : List α} {start : Nat} (h : start + ys.length ≤ xs.length) :
    (splice xs start ys).length = xs.length := by
  simp [splice]; omega

theorem getElem?_slice (xs : List α) (start len i : Nat) :
    (slice xs start len)[i]? = if i < len then xs[start + i]? else none := by
  unfold slice
  rw [List.getElem?_take]
  split
  · rw [List.getElem?_drop]
  · rfl

theorem getElem?_splice {xs ys : List α} {start : Nat} (h : start + ys.length ≤ xs.length)
    (i : Nat) : (splice xs start ys)[i]? =
      if i < start then xs[i]? else if i < start + ys.length then ys[i - start]? else xs[i]? := by
  have htake : (xs.take start).length = start := by simp; omega
  unfold splice
  by_cases h1 : i < start
  · rw [if_pos h1, List.append_assoc, List.getElem?_append_left (by omega), List.getElem?_take,
      if_pos h1]
  · rw [if_neg h1]
    by_cases h2 : i < start + ys.length
    · rw [if_pos h2, List.getElem?_append_left (by rw [List.length_append]; omega),
        List.getElem?_append_right (by omega), htake]
    · rw [if_neg h2, List.getElem?_append_right (by rw [List.length_append]; omega),
        List.length_append, htake, List.getElem?_drop]
      congr 1
      omega

/-- A range inside the first of two pieces. -/
theorem slice_append_left {xs ys : List α} {start len : Nat} (h : start + len ≤ xs.length) :
    slice (xs ++ ys) start len = slice xs start len := by
  rw [slice, slice, List.drop_append_of_le_length (by omega),
    List.take_append_of_le_length (by rw [List.length_drop]; omega)]

/-- The piece behind what stands before it. -/
theorem slice_append_length (xs ys zs : List α) :
    slice (xs ++ (ys ++ zs)) xs.length ys.length = ys := by
  rw [slice, List.drop_left, List.take_left]

/-- Two ranges, the second right behind the first, are one. -/
theorem slice_append_slice (xs : List α) (start m n : Nat) :
    slice xs start m ++ slice xs (start + m) n = slice xs start (m + n) := by
  rw [slice, slice, slice, List.take_add, List.drop_drop]

/-- Overwriting one piece of a list by another of its length. -/
theorem splice_append {ys ys' : List α} (h : ys'.length = ys.length) (xs zs : List α) :
    splice (xs ++ (ys ++ zs)) xs.length ys' = xs ++ (ys' ++ zs) := by
  rw [splice, List.take_left, h, List.drop_length_add_append, List.drop_left, List.append_assoc]

/-- What was written is read back. -/
theorem slice_splice_self {xs ys : List α} {start : Nat} (h : start + ys.length ≤ xs.length) :
    slice (splice xs start ys) start ys.length = ys := by
  refine List.ext_getElem? fun i => ?_
  rw [getElem?_slice, getElem?_splice h]
  by_cases hi : i < ys.length
  · rw [if_pos hi, if_neg (by omega), if_pos (by omega), Nat.add_sub_cancel_left]
  · rw [if_neg hi, List.getElem?_eq_none (by omega)]

/-- Two writes, the second right behind the first, are one. -/
theorem splice_splice_next {xs ys : List α} {start : Nat} (h : start + ys.length ≤ xs.length)
    (zs : List α) : splice (splice xs start ys) (start + ys.length) zs = splice xs start (ys ++ zs) := by
  have hfront : (xs.take start ++ ys).length = start + ys.length := by simp; omega
  rw [splice, splice, splice, ← hfront, List.take_left, hfront, Nat.add_assoc,
    ← Nat.add_assoc start, ← hfront, List.drop_length_add_append, List.drop_drop, hfront,
    List.length_append, Nat.add_assoc]
  simp

/-- A range that does not meet the one written reads as before. -/
theorem slice_splice_of_disjoint {xs ys : List α} {start i n : Nat}
    (h : start + ys.length ≤ xs.length) (hd : i + n ≤ start ∨ start + ys.length ≤ i) :
    slice (splice xs start ys) i n = slice xs i n := by
  refine List.ext_getElem? fun k => ?_
  rw [getElem?_slice, getElem?_slice, getElem?_splice h]
  by_cases hk : k < n
  · rw [if_pos hk, if_pos hk]
    by_cases h1 : i + k < start
    · rw [if_pos h1]
    · rw [if_neg h1, if_neg (by omega)]
  · rw [if_neg hk, if_neg hk]

end Slice

/-! ## §3 Windows of a circular buffer -/

/-- Two ranges that follow one another within one round of the buffer are apart
in the buffer. -/
theorem window_disjoint {cap p s w n : Nat} (hcap : 0 < cap) (hps : p + s ≤ w)
    (hwn : w + n ≤ p + cap) :
    p % cap + s ≤ w % cap ∨ w % cap + n ≤ p % cap := by
  have hp' := Nat.div_add_mod p cap
  have hw' := Nat.div_add_mod w cap
  have hplt := Nat.mod_lt p hcap
  have hwlt := Nat.mod_lt w hcap
  have hle : p / cap ≤ w / cap := Nat.div_le_div_right (by omega)
  have hlt : w / cap ≤ p / cap + 1 := by
    rw [← Nat.add_div_right p hcap]
    exact Nat.div_le_div_right (by omega)
  rcases Nat.lt_or_ge (p / cap) (w / cap) with hround | hsame
  · have heq : w / cap = p / cap + 1 := by omega
    rw [heq, Nat.mul_add, Nat.mul_one] at hw'
    right
    omega
  · have heq : w / cap = p / cap := by omega
    rw [heq] at hw'
    left
    omega

/-- Padding to the end of the round leads to index 0. -/
theorem mod_add_to_end {cap : Nat} (hcap : 0 < cap) (p : Nat) : (p + (cap - p % cap)) % cap = 0 := by
  have hlt := Nat.mod_lt p hcap
  have hdiv := Nat.div_add_mod p cap
  have heq : p + (cap - p % cap) = cap * (p / cap + 1) := by
    rw [Nat.mul_add]
    omega
  rw [heq, Nat.mul_mod_right]

/-! ## §4 Wrapping counters -/

/-- `wrapping_sub` of two counters modulo `W`. -/
def wrappingSub (W a b : Nat) : Nat := (a + W - b) % W

/-- The distance of two positions closer than the modulus. -/
theorem wrappingSub_mod {W H T : Nat} (hle : H ≤ T) (hlt : T - H < W) :
    wrappingSub W (T % W) (H % W) = T - H := by
  have hW : 0 < W := by omega
  have hH := Nat.mod_lt H hW
  have hT := Nat.mod_lt T hW
  have hH' := Nat.div_add_mod H W
  have hT' := Nat.div_add_mod T W
  have hdiv : H / W ≤ T / W := Nat.div_le_div_right hle
  have hdiv' : T / W ≤ H / W + 1 := by
    rw [← Nat.add_div_right H hW]
    exact Nat.div_le_div_right (by omega)
  unfold wrappingSub
  rcases Nat.lt_or_ge (H / W) (T / W) with hround | hsame
  · have heq : T / W = H / W + 1 := by omega
    rw [heq, Nat.mul_add, Nat.mul_one] at hT'
    rw [Nat.mod_eq_of_lt (by omega)]
    omega
  · have heq : T / W = H / W := by omega
    rw [heq] at hT'
    have hsum : T % W + W - H % W = (T - H) + W := by omega
    rw [hsum, Nat.add_mod_right, Nat.mod_eq_of_lt hlt]

/-- Positions closer than the modulus are equal when their counters are. -/
theorem mod_eq_mod_iff {W H C : Nat} (hle : H ≤ C) (hlt : C - H < W) :
    H % W = C % W ↔ H = C := by
  constructor
  · intro h
    have hd := wrappingSub_mod hle hlt
    have hself : wrappingSub W (C % W) (C % W) = C - C := wrappingSub_mod le_rfl (by omega)
    rw [h, hself] at hd
    omega
  · rintro rfl; rfl

end Bowst.Lib
