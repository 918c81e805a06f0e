/-
Bowst.Lib.Radix — numerals of a fixed number of digits, most significant first.

In any base: `digitsOf` writes a number modulo `base ^ width`, `numberOf` reads
digits, and each undoes the other on digits below the base.
-/
import Mathlib.Algebra.Group.Nat.Defs
import Mathlib.Data.List.Induction

namespace Bowst.Lib

/-- The `width` low digits of `n`, most significant first. -/
def digitsOf (base : Nat) : Nat → Nat → List Nat
  | 0, _ => []
  | width + 1, n => digitsOf base width (n / base) ++ [n % base]

/-- The number that digits spell, read behind a number already read. -/
def numberFrom (base n : Nat) (digits : List Nat) : Nat :=
  digits.foldl (fun v d => v * base + d) n

/-- The number that digits spell. -/
def numberOf (base : Nat) (digits : List Nat) : Nat := numberFrom base 0 digits

section Radix

variable {base : Nat}

@[simp] theorem length_digitsOf : ∀ (width n : Nat), (digitsOf base width n).length = width := by
  intro width
  induction width with
  | zero => intro n; rfl
  | succ width ih => intro n; simp [digitsOf, ih]

@[simp] theorem numberOf_nil : numberOf base [] = 0 := rfl

theorem numberOf_concat (digits : List Nat) (d : Nat) :
    numberOf base (digits ++ [d]) = numberOf base digits * base + d := by
  simp [numberOf, numberFrom]

theorem digit_lt (hbase : 0 < base) : ∀ (width n : Nat), ∀ d ∈ digitsOf base width n, d < base := by
  intro width
  induction width with
  | zero => intro n d hd; cases hd
  | succ width ih =>
      intro n d hd
      rcases List.mem_append.mp hd with hd | hd
      · exact ih _ d hd
      · rw [List.mem_singleton.mp hd]
        exact Nat.mod_lt _ hbase

/-- Digits read back as the number they were written for, modulo the width. -/
theorem numberOf_digitsOf (base : Nat) : ∀ (width n : Nat),
    numberOf base (digitsOf base width n) = n % base ^ width := by
  intro width
  induction width with
  | zero => intro n; simp [digitsOf, Nat.mod_one]
  | succ width ih =>
      intro n
      rw [digitsOf, numberOf_concat, ih, pow_succ', Nat.mod_mul, Nat.mul_comm, Nat.add_comm]

/-- Digits spell a number that fits their count. -/
theorem numberOf_lt (digits : List Nat) (h : ∀ d ∈ digits, d < base) :
    numberOf base digits < base ^ digits.length := by
  induction digits using List.reverseRecOn with
  | nil => simp
  | append_singleton digits d ih =>
      have hfront : numberOf base digits < base ^ digits.length :=
        ih fun d' hd' => h d' (List.mem_append_left _ hd')
      have hd : d < base := h d (by simp)
      have hstep : (numberOf base digits + 1) * base ≤ base ^ digits.length * base :=
        Nat.mul_le_mul_right base hfront
      rw [numberOf_concat, List.length_append, List.length_singleton, pow_succ]
      rw [Nat.add_mul, Nat.one_mul] at hstep
      omega

/-- Digits are the digits of the number they spell. -/
theorem digitsOf_numberOf (digits : List Nat) (h : ∀ d ∈ digits, d < base) :
    digitsOf base digits.length (numberOf base digits) = digits := by
  induction digits using List.reverseRecOn with
  | nil => rfl
  | append_singleton digits d ih =>
      have hd : d < base := h d (by simp)
      have hpos : 0 < base := by omega
      have hquot : (numberOf base digits * base + d) / base = numberOf base digits := by
        rw [Nat.mul_comm, Nat.mul_add_div hpos, Nat.div_eq_of_lt hd, Nat.add_zero]
      have hrem : (numberOf base digits * base + d) % base = d := by
        rw [Nat.mul_comm, Nat.mul_add_mod, Nat.mod_eq_of_lt hd]
      rw [numberOf_concat, List.length_append, List.length_singleton, digitsOf, hquot, hrem]
      rw [ih fun d' hd' => h d' (List.mem_append_left _ hd')]

end Radix

end Bowst.Lib
