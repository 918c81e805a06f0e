/-
Bowst.Core.Fixed — exact decimals and whole increments (`bowst-core/src/fixed.rs`).

`u64`, `i64` and `i128` are bounded integers with checked arithmetic, so every
overflow branch of the source is there. Scales are `u8`s that never pass 72, and
counts of digits are bounded by the text's length: their saturating `+ 1` is
`+ 1`. Text is a list of bytes. The tables `POW10` and `POW10_I64` are powers of
ten with the tables' index bounds.
-/
import Mathlib.Tactic.NormNum
import Bowst.Lib.BoundedInt

namespace Bowst.Core

open Bowst.Lib

/-! ## Machine integers and text -/

abbrev U64 := Bounded 0 (2 ^ 64 - 1)
abbrev I64 := Bounded (-2 ^ 63) (2 ^ 63 - 1)
abbrev I128 := Bounded (-2 ^ 127) (2 ^ 127 - 1)

abbrev Bytes := List UInt8

/-- `u64::from(u8)`. -/
def U64.ofByte (b : UInt8) : U64 :=
  ⟨b.toNat, by omega, by have := b.toNat_lt; omega⟩

/-- `i128::from(u8)`. -/
def I128.ofByte (b : UInt8) : I128 :=
  ⟨b.toNat, by omega, by have := b.toNat_lt; omega⟩

/-- `i128::from(u64)`. -/
def I128.ofU64 (n : U64) : I128 :=
  ⟨n.val, by have := n.lo_le; omega, by have := n.le_hi; omega⟩

/-- `i128::from(i64)`. -/
def I128.ofI64 (n : I64) : I128 :=
  ⟨n.val, by have := n.lo_le; omega, by have := n.le_hi; omega⟩

/-- Largest scale (number of decimal places) a `Dec` may carry. -/
def maxScale : Nat := 36

/-- Largest number of decimal places accepted when parsing text or building an
`Increment`. -/
def maxParseScale : Nat := 18

/-- Digits the fast path of `parseUnitsBytes` accumulates. -/
def fastDigits : Nat := 18

/-- Longest text `Dec.writeTo` can produce. -/
def maxTextLen : Nat := 42

/-- Errors from parsing, converting or formatting fixed-point numbers. -/
inductive FixedError where
  | empty
  | invalidChar (pos : Nat)
  | tooManyDecimals
  | scaleTooLarge
  | overflow
  | nonPositiveIncrement
  | notMultiple
  | bufferTooSmall
  deriving DecidableEq, Repr

def FixedError.toText : FixedError → String
  | .empty => "empty number"
  | .invalidChar pos => s!"invalid character at byte {pos}"
  | .tooManyDecimals => s!"more than {maxParseScale} decimal places"
  | .scaleTooLarge => s!"scale above {maxScale}"
  | .overflow => "numeric overflow"
  | .nonPositiveIncrement => "increment must be positive"
  | .notMultiple => "value is not a multiple of the increment"
  | .bufferTooSmall => "output buffer too small"

/-- Rounding direction when converting a decimal value into whole increments. -/
inductive Rounding where
  | down
  | up
  | exact
  deriving DecidableEq, Repr

/-- `Option::ok_or`. -/
def okOr {α : Type} (a : Option α) (err : FixedError) : Except FixedError α :=
  match a with
  | some a => .ok a
  | none => .error err

theorem ten_pow_le {n k : Nat} (h : n < k + 1) : (10 : Int) ^ n ≤ 10 ^ k :=
  pow_le_pow_right₀ (by norm_num) (by omega)

/-- `10^n` for `n` in `0..=38`. -/
def pow10 (n : Nat) : Except FixedError I128 :=
  if h : n < 39 then
    .ok ⟨10 ^ n, le_trans (by norm_num) (pow_nonneg (by norm_num) n),
      le_trans (ten_pow_le h) (by norm_num)⟩
  else .error .scaleTooLarge

/-- `10^n` for `n` in `0..=18`, for the fast paths. -/
def pow10I64 (n : Nat) : Option I64 :=
  if h : n < 19 then
    some ⟨10 ^ n, le_trans (by norm_num) (pow_nonneg (by norm_num) n),
      le_trans (ten_pow_le h) (by norm_num)⟩
  else none

/-- `value * 10 + digit`, checked. -/
def accumulate (value : I128) (digit : UInt8) : Except FixedError I128 :=
  okOr ((value.checkedMul (I128.ofByte 10)).bind fun v => v.checkedAdd (I128.ofByte digit))
    .overflow

/-- Applies `rounding` to a floor quotient, given whether the division was exact. -/
def roundQuotient (floor : I128) (exact : Bool) (rounding : Rounding) : Except FixedError I128 :=
  match rounding, exact with
  | _, true | .down, false => .ok floor
  | .up, false => okOr (floor.checkedAdd (I128.ofByte 1)) .overflow
  | .exact, false => .error .notMultiple

/-! ## Decimals -/

/-- An exact decimal number: `mantissa * 10^-scale`. -/
structure Dec where
  mantissa : I128
  scale : Nat
  scale_le : scale ≤ maxScale
  deriving DecidableEq, Repr

/-- The state of the digit loop of `parse_bytes`. The value is in `small` until
it no longer fits a `u64`, then in `big`. -/
structure DecScan where
  small : U64
  big : Option I128
  scale : Nat
  scale_le : scale ≤ maxParseScale
  seenPoint : Bool
  intDigits : Nat
  deriving DecidableEq, Repr

namespace DecScan

/-- The start of the loop. -/
def start : DecScan where
  small := U64.ofByte 0
  big := none
  scale := 0
  scale_le := Nat.zero_le _
  seenPoint := false
  intDigits := 0

/-- The value accumulated so far. -/
def value (st : DecScan) : I128 := st.big.getD (I128.ofU64 st.small)

/-- Adds a digit to the value. -/
def addDigit (st : DecScan) (digit : UInt8) : Except FixedError DecScan :=
  match st.big with
  | none =>
      match (st.small.checkedMul (U64.ofByte 10)).bind fun m => m.checkedAdd (U64.ofByte digit) with
      | some next => .ok { st with small := next }
      | none => do
          let next ← accumulate (I128.ofU64 st.small) digit
          .ok { st with big := some next }
  | some value => do
      let next ← accumulate value digit
      .ok { st with big := some next }

/-- Counts a digit: a decimal place after the point, an integer digit before it. -/
def countDigit (st : DecScan) : Except FixedError DecScan :=
  if st.seenPoint then
    if h : st.scale + 1 ≤ maxParseScale then .ok { st with scale := st.scale + 1, scale_le := h }
    else .error .tooManyDecimals
  else .ok { st with intDigits := st.intDigits + 1 }

/-- Whether a byte is an ASCII digit. -/
def isDigit (byte : UInt8) : Bool := decide (48 ≤ byte ∧ byte ≤ 57)

/-- One byte of the text. -/
def step (st : DecScan) (pos : Nat) (byte : UInt8) : Except FixedError DecScan :=
  if isDigit byte then do
    let st ← st.addDigit (byte - 48)
    st.countDigit
  else if byte = 46 ∧ st.seenPoint = false ∧ st.intDigits > 0 then
    .ok { st with seenPoint := true }
  else .error (.invalidChar pos)

/-- The loop over the bytes from position `pos` on. -/
def run (st : DecScan) (pos : Nat) : Bytes → Except FixedError DecScan
  | [] => .ok st
  | byte :: rest => do
      let st ← st.step pos byte
      st.run (pos + 1) rest

end DecScan

namespace Dec

/-- Zero. -/
def zero : Dec := ⟨I128.ofByte 0, 0, Nat.zero_le _⟩

/-- Builds `mantissa * 10^-scale`. -/
def new (mantissa : I128) (scale : Nat) : Except FixedError Dec :=
  if h : scale ≤ maxScale then .ok ⟨mantissa, scale, h⟩ else .error .scaleTooLarge

/-- The checks and the sign after the digit loop. -/
def finish (negative : Bool) (len : Nat) (st : DecScan) : Except FixedError Dec :=
  if st.intDigits = 0 then .error .empty
  else if st.seenPoint ∧ st.scale = 0 then
    -- Trailing point with no fractional digits, e.g. "12."
    .error (.invalidChar (len - 1))
  else do
    let mantissa ← if negative then okOr st.value.checkedNeg .overflow else .ok st.value
    .ok ⟨mantissa, st.scale, le_trans st.scale_le (by decide)⟩

/-- Parses a plain decimal number such as `42`, `-0.00100` or `43251.37`. -/
def parseBytes (bytes : Bytes) : Except FixedError Dec :=
  match bytes with
  | [] => .error .empty
  | first :: rest =>
      if first = 45 then do
        let st ← DecScan.start.run 1 rest
        finish true bytes.length st
      else do
        let st ← DecScan.start.run 0 bytes
        finish false bytes.length st

/-- Mantissa expressed at a larger `scale`. -/
def mantissaAt (d : Dec) (scale : Nat) : Except FixedError I128 := do
  let shift ← if d.scale ≤ scale then .ok (scale - d.scale) else .error .scaleTooLarge
  let factor ← pow10 shift
  okOr (d.mantissa.checkedMul factor) .overflow

/-- The digit loop of `write_to`, least significant digit first, over the slots
left in its scratch array. -/
def revDigits (minDigits : Nat) : Nat → Nat → Nat → Except FixedError Bytes
  | slots, len, rest =>
      if rest > 0 ∨ len < minDigits then
        match slots with
        | 0 => .error .overflow
        | slots + 1 => do
            let tail ← revDigits minDigits slots (len + 1) (rest / 10)
            .ok ((48 + UInt8.ofNat (rest % 10)) :: tail)
      else .ok []

/-- The bytes `write_to` pushes, in order: sign, digits, and the point before
the digit at index `pointAt`. -/
def textOf (d : Dec) (digits : Bytes) : Bytes :=
  let pointAt := digits.length - d.scale
  (if d.mantissa.val < 0 then [45] else []) ++
    (digits.zipIdx.flatMap fun (digit, i) =>
      if i = pointAt ∧ d.scale > 0 then [46, digit] else [digit])

/-- Pushes bytes into a buffer of `cap` bytes after `pos` bytes of it. -/
def pushAll (cap : Nat) : Nat → Bytes → Except FixedError Nat
  | pos, [] => .ok pos
  | pos, _ :: rest => if pos < cap then pushAll cap (pos + 1) rest else .error .bufferTooSmall

/-- Writes the value as plain decimal text into a buffer of `cap` bytes. The
result is the bytes written. -/
def writeTo (d : Dec) (cap : Nat) : Except FixedError Bytes := do
  let rev ← revDigits (d.scale + 1) maxTextLen 0 d.mantissa.val.natAbs
  let text := d.textOf rev.reverse
  let len ← pushAll cap 0 text
  .ok (text.take len)

/-- The `Display` text. -/
def display (d : Dec) : Except FixedError Bytes := d.writeTo maxTextLen

/-- Integer part (floored) and non-negative fractional mantissa at this scale. -/
def split (d : Dec) : Int × Int :=
  let unit : Int := 10 ^ d.scale
  (d.mantissa.val / unit, d.mantissa.val % unit)

/-- `i128::saturating_mul`. -/
def saturatingMul (a b : Int) : Int := max (-2 ^ 127) (min (a * b) (2 ^ 127 - 1))

/-- `Ord::cmp`. -/
def cmp (a b : Dec) : Ordering :=
  if a.scale = b.scale then compare a.mantissa.val b.mantissa.val
  else
    let common := max a.scale b.scale
    let rescale (frac : Int) (scale : Nat) : Int := saturatingMul frac (10 ^ (common - scale))
    (compare a.split.1 b.split.1).then
      (compare (rescale a.split.2 a.scale) (rescale b.split.2 b.scale))

/-- `PartialEq::eq`: equality of values, so that `1.0` is `1.00`. -/
def eq (a b : Dec) : Bool := decide (a.cmp b = .eq)

end Dec

/-! ## Increments -/

/-- The normalization loop of `Increment::new`: drops trailing zeros. -/
def normalize : Nat → Int → Int × Nat
  | 0, mantissa => (mantissa, 0)
  | scale + 1, mantissa =>
      if mantissa % 10 = 0 then normalize scale (mantissa / 10) else (mantissa, scale + 1)

/-- What `Increment::new` leaves of a positive mantissa. -/
theorem normalize_spec : ∀ (scale : Nat) {mantissa : Int}, 0 < mantissa →
    0 < (normalize scale mantissa).1 ∧ (normalize scale mantissa).1 ≤ mantissa ∧
      (normalize scale mantissa).2 ≤ scale ∧
      ((normalize scale mantissa).2 = 0 ∨ (normalize scale mantissa).1 % 10 ≠ 0) := by
  intro scale
  induction scale with
  | zero => intro mantissa h; exact ⟨h, le_refl _, le_refl _, Or.inl rfl⟩
  | succ scale ih =>
      intro mantissa h
      rw [normalize]
      by_cases hten : mantissa % 10 = 0
      · rw [if_pos hten]
        have hquot : 0 < mantissa / 10 := by omega
        obtain ⟨h1, h2, h3, h4⟩ := ih hquot
        exact ⟨h1, by omega, by omega, h4⟩
      · rw [if_neg hten]
        exact ⟨h, le_refl _, le_refl _, Or.inr hten⟩

/-- A strictly positive step size, stored without trailing zeros. -/
structure Increment where
  mantissa : I64
  scale : Nat
  positive : 0 < mantissa.val
  scale_le : scale ≤ maxParseScale
  normalized : scale = 0 ∨ mantissa.val % 10 ≠ 0
  deriving DecidableEq, Repr

namespace Increment

/-- Builds `mantissa * 10^-scale`. -/
def new (mantissa : I64) (scale : Nat) : Except FixedError Increment :=
  if hpos : mantissa.val ≤ 0 then .error .nonPositiveIncrement
  else if hscale : scale > maxParseScale then .error .tooManyDecimals
  else
    have h := normalize_spec scale (not_le.mp hpos)
    .ok { mantissa := ⟨(normalize scale mantissa.val).1, by have := h.1; omega,
            le_trans h.2.1 mantissa.le_hi⟩
          scale := (normalize scale mantissa.val).2
          positive := h.1
          scale_le := le_trans h.2.2.1 (not_lt.mp hscale)
          normalized := h.2.2.2 }

/-- One unit in the last of `places` decimal places, of which there are at most
`maxParseScale`. -/
def decimals (places : Nat) : Increment where
  mantissa := ⟨1, by decide, by decide⟩
  scale := min places maxParseScale
  positive := by decide
  scale_le := Nat.min_le_right places maxParseScale
  normalized := .inr (by decide)

/-- Parses an increment from venue text such as `0.01000000`. -/
def parse (text : Bytes) : Except FixedError Increment := do
  let dec ← Dec.parseBytes text
  let mantissa ← okOr dec.mantissa.cast? .overflow
  new mantissa dec.scale

/-- The increment as a decimal. -/
def asDec (q : Increment) : Dec :=
  ⟨I128.ofI64 q.mantissa, q.scale, le_trans q.scale_le (by decide)⟩

/-- Numerator and denominator at scale `common`, if both fit in an `i64`. -/
def rescaledI64 (q : Increment) (value : Dec) (common : Nat) : Option (I64 × I64) :=
  let factor (scale : Nat) : Option I64 :=
    if scale ≤ common then pow10I64 (common - scale) else none
  (value.mantissa.cast? : Option I64).bind fun m =>
    (factor value.scale).bind fun f =>
      (m.checkedMul f).bind fun numerator =>
        (factor q.scale).bind fun f' =>
          (q.mantissa.checkedMul f').bind fun denominator => some (numerator, denominator)

/-- Rounds a quotient to whole increments that fit an `i64`. -/
def toWhole (floor : I128) (exact : Bool) (rounding : Rounding) : Except FixedError I64 := do
  let units ← roundQuotient floor exact rounding
  okOr units.cast? .overflow

/-- Converts a decimal value into a whole number of increments. -/
def toUnits (q : Increment) (value : Dec) (rounding : Rounding) : Except FixedError I64 :=
  let common := max value.scale q.scale
  match q.rescaledI64 value common with
  | some (numerator, denominator) => do
      let floor ← okOr (numerator.checkedDivEuclid denominator) .overflow
      let exact := decide ((numerator.checkedRemEuclid denominator).map Bounded.val = some 0)
      toWhole (I128.ofI64 floor) exact rounding
  | none => do
      let numerator ← value.mantissaAt common
      let denominator ← q.asDec.mantissaAt common
      let floor ← okOr (numerator.checkedDivEuclid denominator) .overflow
      let exact := decide ((numerator.checkedRemEuclid denominator).map Bounded.val = some 0)
      toWhole floor exact rounding

/-- The text before and after the first point, as the fast path splits it. -/
def splitPoint (bytes : Bytes) : Option (Bytes × Bytes) :=
  match bytes.findIdx? (fun b => b = 46) with
  | some dot =>
      let frac := (bytes.drop dot).drop 1
      if frac.isEmpty then none else some (bytes.take dot, frac)
  | none => some (bytes, [])

/-- The digit loop of the fast path: `u64` arithmetic without overflow checks. -/
def fastUnits : Nat → Bytes → Option Nat
  | units, [] => some units
  | units, byte :: rest =>
      let digit := byte - 48
      if digit > 9 then none else fastUnits ((units * 10 % 2 ^ 64 + digit.toNat) % 2 ^ 64) rest

/-- The division-free fast path. `none` means "not handled here". -/
def parseExactPowerOfTen (q : Increment) (bytes : Bytes) : Option I64 :=
  if q.mantissa.val ≠ 1 then none
  else
    (splitPoint bytes).bind fun (intPart, fracPart) =>
      if intPart.isEmpty ∨ fracPart.length > maxParseScale then none
      else
        let wanted := q.scale
        let kept := fracPart.take (min fracPart.length wanted)
        let dropped := fracPart.drop (min fracPart.length wanted)
        -- Not an exact multiple (or malformed): let the general path decide.
        if !dropped.all (fun b => b = 48) then none
        else if intPart.length + kept.length > fastDigits then none
        else
          (fastUnits 0 (intPart ++ kept)).bind fun units =>
            let missing := wanted - kept.length
            (Bounded.ofInt? units : Option I64).bind fun units =>
              (pow10I64 missing).bind fun factor => units.checkedMul factor

/-- Parses decimal text straight into whole increments. -/
def parseUnitsBytes (q : Increment) (bytes : Bytes) (rounding : Rounding) :
    Except FixedError I64 :=
  match q.parseExactPowerOfTen bytes with
  | some units => .ok units
  | none => do
      let value ← Dec.parseBytes bytes
      q.toUnits value rounding

/-- The product of two `i64`s fits an `i128`. -/
theorem mul_mem_i128 (a b : I64) :
    -2 ^ 127 ≤ a.val * b.val ∧ a.val * b.val ≤ 2 ^ 127 - 1 := by
  have h1 := a.lo_le
  have h2 := a.le_hi
  have h3 := b.lo_le
  have h4 := b.le_hi
  constructor <;> nlinarith

/-- The decimal value of `units` whole increments: `i128::saturating_mul` of two
`i64`s, which never saturates. -/
def fromUnits (q : Increment) (units : I64) : Dec where
  mantissa := ⟨units.val * q.mantissa.val, (mul_mem_i128 ..).1, (mul_mem_i128 ..).2⟩
  scale := q.scale
  scale_le := le_trans q.scale_le (by decide)

end Increment

end Bowst.Core
