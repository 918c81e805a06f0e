/-
Bowst.Lib.Crc32 — cyclic redundancy checks, least significant bit first.

One bit shifts the remainder down and subtracts the polynomial if a one falls out.
Where the polynomial has its top bit, no two remainders become the same: the bit
that fell out is the top bit of the result. So remainders that differ once differ
from then on, and a message with one byte changed has another checksum.

  §1 Change — messages that differ in one byte.
  §2 Shift  — one bit.
  §3 Fold   — bytes.
  §4 CRC-32 — the checksum of IEEE 802.3.
-/
import Mathlib.Logic.Function.Iterate

namespace Bowst.Lib

/-! ## §1 Change -/

/-- The second message is the first with one byte changed. -/
def Changed (xs ys : List UInt8) : Prop :=
  ∃ front a b back, xs = front ++ a :: back ∧ ys = front ++ b :: back ∧ a ≠ b

theorem Changed.length_eq {xs ys : List UInt8} (h : Changed xs ys) : ys.length = xs.length := by
  obtain ⟨front, a, b, back, rfl, rfl, _⟩ := h
  simp

theorem Changed.append_left {xs ys : List UInt8} (h : Changed xs ys) (zs : List UInt8) :
    Changed (zs ++ xs) (zs ++ ys) := by
  obtain ⟨front, a, b, back, rfl, rfl, hne⟩ := h
  exact ⟨zs ++ front, a, b, back, by simp, by simp, hne⟩

theorem Changed.append_right {xs ys : List UInt8} (h : Changed xs ys) (zs : List UInt8) :
    Changed (xs ++ zs) (ys ++ zs) := by
  obtain ⟨front, a, b, back, rfl, rfl, hne⟩ := h
  exact ⟨front, a, b, back ++ zs, by simp, by simp, hne⟩

theorem Changed.ne {xs ys : List UInt8} (h : Changed xs ys) : xs ≠ ys := by
  obtain ⟨front, a, b, back, rfl, rfl, hne⟩ := h
  intro heq
  exact hne (List.cons_eq_cons.mp (List.append_cancel_left heq)).1

/-- A change of two pieces is a change of one of them. -/
theorem Changed.of_append {xs ys zs : List UInt8} (h : Changed (xs ++ ys) zs) :
    (∃ xs', Changed xs xs' ∧ zs = xs' ++ ys) ∨ ∃ ys', Changed ys ys' ∧ zs = xs ++ ys' := by
  obtain ⟨front, a, b, back, heq, rfl, hne⟩ := h
  rcases List.append_eq_append_iff.mp heq with ⟨mid, rfl, rfl⟩ | ⟨mid, rfl, hmid⟩
  · exact .inr ⟨mid ++ b :: back, ⟨mid, a, b, back, rfl, rfl, hne⟩, by simp⟩
  · rcases List.cons_eq_append_iff.mp hmid with ⟨rfl, rfl⟩ | ⟨mid', rfl, rfl⟩
    · exact .inr ⟨b :: back, ⟨[], a, b, back, rfl, rfl, hne⟩, by simp⟩
    · exact .inl ⟨front ++ b :: mid', ⟨front, a, b, mid', rfl, rfl, hne⟩, by simp⟩

/-- One bit of one byte inverted. -/
def flipBit (bytes : List UInt8) (i bit : Nat) : List UInt8 :=
  bytes.modify i fun byte => byte ^^^ (1 <<< UInt8.ofNat bit)

theorem flipBit_changed {bytes : List UInt8} {i bit : Nat} (hi : i < bytes.length) (hbit : bit < 8) :
    Changed bytes (flipBit bytes i bit) := by
  have hflip : ∀ byte : UInt8, byte ≠ byte ^^^ (1 <<< UInt8.ofNat bit) := by
    intro byte heq
    have hmask : ∀ k < 8, (1 : UInt8) <<< UInt8.ofNat k ≠ 0 := by decide
    rw [← UInt8.xor_zero (a := byte), UInt8.xor_assoc, UInt8.zero_xor, UInt8.xor_right_inj] at heq
    exact hmask bit hbit heq.symm
  refine ⟨bytes.take i, bytes[i], bytes[i] ^^^ (1 <<< UInt8.ofNat bit), bytes.drop (i + 1), ?_, ?_,
    hflip _⟩
  · rw [← List.drop_eq_getElem_cons hi, List.take_append_drop]
  · rw [flipBit, List.modify_eq_take_cons_drop hi]

/-! ## §2 Shift -/

variable {w : Nat} {poly : BitVec w}

/-- One bit of a message that is already in the remainder. -/
def crcShift (poly c : BitVec w) : BitVec w :=
  if c.getLsbD 0 then (c >>> 1) ^^^ poly else c >>> 1

theorem eq_of_ushiftRight_eq {a b : BitVec w} (hlow : a.getLsbD 0 = b.getLsbD 0)
    (h : a >>> 1 = b >>> 1) : a = b := by
  refine BitVec.eq_of_getLsbD_eq fun i _ => ?_
  cases i with
  | zero => exact hlow
  | succ k =>
      have hbit := congrArg (fun x => x.getLsbD k) h
      simpa [Nat.add_comm 1 k] using hbit

/-- The top bit of a shifted remainder is the bit that fell out. -/
theorem crcShift_msb (hpoly : poly.msb = true) (c : BitVec w) :
    (crcShift poly c).msb = c.getLsbD 0 := by
  have htop : (c >>> 1).msb = false := by simp [BitVec.msb_ushiftRight]
  unfold crcShift
  cases c.getLsbD 0 with
  | false =>
      rw [if_neg Bool.false_ne_true]
      exact htop
  | true =>
      rw [if_pos rfl, BitVec.msb_xor, htop, hpoly]
      rfl

theorem crcShift_injective (hpoly : poly.msb = true) : Function.Injective (crcShift poly) := by
  intro a b h
  have hlow : a.getLsbD 0 = b.getLsbD 0 := by
    rw [← crcShift_msb hpoly, ← crcShift_msb hpoly, h]
  refine eq_of_ushiftRight_eq hlow ?_
  unfold crcShift at h
  rw [hlow] at h
  split at h
  · exact (BitVec.xor_left_inj _).mp h
  · exact h

/-! ## §3 Fold -/

/-- One byte of a message. -/
def crcByte (poly c : BitVec w) (byte : UInt8) : BitVec w :=
  (crcShift poly)^[8] (c ^^^ byte.toBitVec.setWidth w)

/-- The remainder after some bytes. -/
def crcFold (poly c : BitVec w) (bytes : List UInt8) : BitVec w := bytes.foldl (crcByte poly) c

theorem crcByte_left_injective (hpoly : poly.msb = true) (byte : UInt8) :
    Function.Injective fun c => crcByte poly c byte := by
  intro a b h
  exact (BitVec.xor_left_inj _).mp ((crcShift_injective hpoly).iterate 8 h)

theorem crcByte_right_injective (hpoly : poly.msb = true) (hw : 8 ≤ w) (c : BitVec w) :
    Function.Injective (crcByte poly c) := by
  intro a b h
  have hext : a.toBitVec.setWidth w = b.toBitVec.setWidth w :=
    (BitVec.xor_right_inj _).mp ((crcShift_injective hpoly).iterate 8 h)
  have hback := congrArg (fun x => x.setWidth 8) hext
  simpa [BitVec.setWidth_setWidth_of_le, hw, UInt8.toBitVec_inj] using hback

theorem crcFold_injective (hpoly : poly.msb = true) (bytes : List UInt8) :
    Function.Injective fun c => crcFold poly c bytes := by
  induction bytes with
  | nil => exact fun a b h => h
  | cons byte bytes ih =>
      intro a b h
      exact crcByte_left_injective hpoly byte (ih h)

/-- Two messages that differ in one byte have different remainders. -/
theorem crcFold_ne (hpoly : poly.msb = true) (hw : 8 ≤ w) (c : BitVec w) (xs ys : List UInt8)
    {a b : UInt8} (hne : a ≠ b) :
    crcFold poly c (xs ++ a :: ys) ≠ crcFold poly c (xs ++ b :: ys) := by
  simp only [crcFold, List.foldl_append, List.foldl_cons]
  intro h
  exact hne (crcByte_right_injective hpoly hw _ (crcFold_injective hpoly ys h))

/-! ## §4 CRC-32 -/

/-- The polynomial of IEEE 802.3, its coefficients least significant bit first. -/
def crc32Poly : BitVec 32 := 0xEDB88320#32

/-- CRC-32: all ones at the start, and inverted at the end. -/
def crc32 (bytes : List UInt8) : UInt32 :=
  .ofBitVec (crcFold crc32Poly (BitVec.allOnes 32) bytes ^^^ BitVec.allOnes 32)

/-- The check value of the standard: the digits 1 to 9. -/
example : crc32 [49, 50, 51, 52, 53, 54, 55, 56, 57] = 0xCBF43926 := by decide +kernel

/-- A message with one byte changed has another CRC-32. -/
theorem crc32_ne {xs ys : List UInt8} (h : Changed xs ys) : crc32 ys ≠ crc32 xs := by
  obtain ⟨front, a, b, back, rfl, rfl, hne⟩ := h
  intro heq
  have hbits := congrArg UInt32.toBitVec heq
  exact crcFold_ne (by decide) (by decide) _ front back hne.symm ((BitVec.xor_left_inj _).mp hbits)

end Bowst.Lib
