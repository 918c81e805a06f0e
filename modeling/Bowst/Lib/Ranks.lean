/-
Bowst.Lib.Ranks — ranks in a list and in its classes.

  §1 Sorted lists — how many elements are below the one at a position.
  §2 Classes      — elements sorted into numbered classes by a monotone function:
     the class of the element of a rank is the first one up to which there are as
     many elements as the rank says.
-/
import Mathlib.Data.List.Sort
import Mathlib.Order.Lattice

namespace Bowst.Lib

/-! ## §1 Sorted lists -/

section Sorted

variable {α : Type} [LinearOrder α]

/-- In a sorted list no more elements than its position are below an element, and
more are not above it. -/
theorem countP_sorted {s : List α} (hs : s.Pairwise (· ≤ ·)) {i : Nat} {x : α}
    (h : s[i]? = some x) :
    s.countP (fun y => decide (y < x)) ≤ i ∧ i < s.countP (fun y => decide (y ≤ x)) := by
  obtain ⟨hi, hx⟩ := List.getElem?_eq_some_iff.mp h
  have hsplit : s = s.take i ++ x :: s.drop (i + 1) := by
    rw [← hx, List.getElem_cons_drop, List.take_append_drop]
  have hlen : (s.take i).length = i := by rw [List.length_take]; omega
  rw [hsplit, List.pairwise_append, List.pairwise_cons] at hs
  obtain ⟨-, ⟨habove, -⟩, hbelow⟩ := hs
  have hnone : (x :: s.drop (i + 1)).countP (fun y => decide (y < x)) = 0 := by
    rw [List.countP_eq_zero]
    intro y hy
    rcases List.mem_cons.mp hy with rfl | hy
    · simp
    · simpa using habove y hy
  have hall : (s.take i).countP (fun y => decide (y ≤ x)) = (s.take i).length := by
    rw [List.countP_eq_length]
    intro y hy
    simpa using hbelow y hy x (by simp)
  rw [hlen] at hall
  have hself : 0 < (x :: s.drop (i + 1)).countP (fun y => decide (y ≤ x)) := by
    rw [List.countP_pos_iff]
    exact ⟨x, by simp, by simp⟩
  have hfront := List.countP_le_length (p := fun y => decide (y < x)) (l := s.take i)
  constructor
  · rw [hsplit, List.countP_append, hnone]
    omega
  · rw [hsplit, List.countP_append, hall]
    omega

end Sorted

/-! ## §2 Classes -/

section Classes

variable {α : Type} (f : α → Nat) (values : List α)

/-- How many elements are in a class. -/
def inClass (i : Nat) : Nat := values.countP fun v => decide (f v = i)

/-- How many elements are in the classes before one. -/
def beforeClass (i : Nat) : Nat := values.countP fun v => decide (f v < i)

@[simp] theorem beforeClass_zero : beforeClass f values 0 = 0 := by
  simp [beforeClass]

theorem beforeClass_succ (i : Nat) :
    beforeClass f values (i + 1) = beforeClass f values i + inClass f values i := by
  induction values with
  | nil => rfl
  | cons v values ih =>
      simp only [beforeClass, inClass, List.countP_cons, decide_eq_true_eq] at ih ⊢
      split_ifs <;> omega

theorem beforeClass_le_length (i : Nat) : beforeClass f values i ≤ values.length :=
  List.countP_le_length

theorem beforeClass_mono {i j : Nat} (h : i ≤ j) :
    beforeClass f values i ≤ beforeClass f values j := by
  refine List.countP_mono_left fun v _ hv => ?_
  simp only [decide_eq_true_eq] at hv ⊢
  omega

variable {f values}

/-- The class that holds the element of a rank. -/
theorem class_of_rank [LinearOrder α] (hf : MonotoneOn f {v | v ∈ values}) {s : List α}
    (hperm : s.Perm values) (hs : s.Pairwise (· ≤ ·)) {i : Nat} {x : α} (h : s[i]? = some x) :
    beforeClass f values (f x) ≤ i ∧ i < beforeClass f values (f x + 1) := by
  have hx : x ∈ values := hperm.mem_iff.mp (List.mem_of_getElem? h)
  obtain ⟨hlt, hle⟩ := countP_sorted hs h
  rw [hperm.countP_eq] at hlt hle
  have hbefore : beforeClass f values (f x) ≤ values.countP (fun y => decide (y < x)) := by
    refine List.countP_mono_left fun v hmem hv => ?_
    simp only [decide_eq_true_eq] at hv ⊢
    exact lt_of_not_ge fun hge => absurd (hf hx hmem hge) (by omega)
  have hafter : values.countP (fun y => decide (y ≤ x)) ≤ beforeClass f values (f x + 1) := by
    refine List.countP_mono_left fun v hmem hv => ?_
    simp only [decide_eq_true_eq] at hv ⊢
    have hclass := hf hmem hx hv
    omega
  omega

end Classes

end Bowst.Lib
