/-
Bowst.Lib.BoundedInt — the values of a fixed-width integer type, with the
checked arithmetic of such a type.

A `Bounded lo hi` carries its range, so a value out of range cannot be built.
Every checked operation computes on `Int` and keeps the result if it is in
range; `ofInt?_eq_some_iff` is all that proofs need of them.
-/
import Mathlib.Data.Int.Order.Basic
import Mathlib.Tactic.Linarith

namespace Bowst.Lib

/-- A computation that succeeds has steps that do. -/
theorem except_bind_eq_ok {ε α β : Type} {x : Except ε α} {f : α → Except ε β} {b : β} :
    (x >>= f) = .ok b ↔ ∃ a, x = .ok a ∧ f a = .ok b := by
  cases x with
  | error e => simp [bind, Except.bind]
  | ok a => simp [bind, Except.bind]

theorem except_map_eq_ok {ε α β : Type} {x : Except ε α} {f : α → β} {b : β} :
    x.map f = .ok b ↔ ∃ a, x = .ok a ∧ f a = b := by
  cases x <;> simp [Except.map]

theorem except_map_eq_error {ε α β : Type} {x : Except ε α} {f : α → β} {e : ε} :
    x.map f = .error e ↔ x = .error e := by
  cases x <;> simp [Except.map]

/-- An integer from `lo` to `hi`. -/
structure Bounded (lo hi : Int) where
  val : Int
  lo_le : lo ≤ val
  le_hi : val ≤ hi
  deriving DecidableEq, Repr

namespace Bounded

variable {lo hi : Int}

/-- Keeps an integer that is in range. -/
def ofInt? (n : Int) : Option (Bounded lo hi) :=
  if h : lo ≤ n ∧ n ≤ hi then some ⟨n, h.1, h.2⟩ else none

/-- Conversion to another width, when the value fits. -/
def cast? {lo' hi' : Int} (a : Bounded lo hi) : Option (Bounded lo' hi') := ofInt? a.val

def checkedAdd (a b : Bounded lo hi) : Option (Bounded lo hi) := ofInt? (a.val + b.val)

def checkedMul (a b : Bounded lo hi) : Option (Bounded lo hi) := ofInt? (a.val * b.val)

def checkedNeg (a : Bounded lo hi) : Option (Bounded lo hi) := ofInt? (-a.val)

/-- Euclidean quotient: none for a zero divisor or a quotient out of range. -/
def checkedDivEuclid (a b : Bounded lo hi) : Option (Bounded lo hi) :=
  if b.val = 0 then none else ofInt? (a.val / b.val)

/-- Euclidean remainder: none where the quotient is none. -/
def checkedRemEuclid (a b : Bounded lo hi) : Option (Bounded lo hi) :=
  (checkedDivEuclid a b).bind fun _ => ofInt? (a.val % b.val)

theorem ext {a b : Bounded lo hi} (h : a.val = b.val) : a = b := by
  cases a; cases b; simp_all

theorem ofInt?_eq_some_iff {n : Int} {a : Bounded lo hi} : ofInt? n = some a ↔ a.val = n := by
  unfold ofInt?
  constructor
  · intro h
    split at h
    · cases h; rfl
    · cases h
  · rintro rfl
    rw [dif_pos ⟨a.lo_le, a.le_hi⟩]

theorem ofInt?_eq_none_iff {n : Int} :
    (ofInt? n : Option (Bounded lo hi)) = none ↔ ¬ (lo ≤ n ∧ n ≤ hi) := by
  unfold ofInt?
  by_cases h : lo ≤ n ∧ n ≤ hi <;> simp [h]

/-- An integer in range is kept, as itself. -/
theorem ofInt?_of_mem {n : Int} (h : lo ≤ n ∧ n ≤ hi) :
    (ofInt? n : Option (Bounded lo hi)) = some ⟨n, h.1, h.2⟩ := dif_pos h

/-- A positive divisor always gives a quotient, the exact one. -/
theorem checkedDivEuclid_of_pos (a : Bounded lo hi) {b : Bounded lo hi} (hlo : lo ≤ 0)
    (hb : 0 < b.val) : ∃ q, checkedDivEuclid a b = some q ∧ q.val = a.val / b.val := by
  have h1 := a.lo_le
  have h2 := a.le_hi
  have h3 := b.le_hi
  have hmem : lo ≤ a.val / b.val ∧ a.val / b.val ≤ hi := by
    rcases le_total 0 a.val with ha | ha
    · have hle := Int.ediv_le_self b.val ha
      have hnonneg := Int.ediv_nonneg ha (le_of_lt hb)
      omega
    · have hle : a.val ≤ a.val / b.val := by
        rw [Int.le_ediv_iff_mul_le hb]
        nlinarith
      have hnonpos := Int.ediv_nonpos_of_nonpos_of_neg ha hb
      omega
  refine ⟨⟨_, hmem.1, hmem.2⟩, ?_, rfl⟩
  unfold checkedDivEuclid
  rw [if_neg (ne_of_gt hb), ofInt?_of_mem hmem]

/-- And a remainder, the exact one. -/
theorem checkedRemEuclid_of_pos (a : Bounded lo hi) {b : Bounded lo hi} (hlo : lo ≤ 0)
    (hb : 0 < b.val) : ∃ r, checkedRemEuclid a b = some r ∧ r.val = a.val % b.val := by
  obtain ⟨q, hq, _⟩ := checkedDivEuclid_of_pos a hlo hb
  have hnonneg := Int.emod_nonneg a.val (ne_of_gt hb)
  have hlt := Int.emod_lt_of_pos a.val hb
  have h3 := b.le_hi
  have hmem : lo ≤ a.val % b.val ∧ a.val % b.val ≤ hi := by omega
  refine ⟨⟨_, hmem.1, hmem.2⟩, ?_, rfl⟩
  unfold checkedRemEuclid
  rw [hq, Option.bind_some, ofInt?_of_mem hmem]

end Bounded

end Bowst.Lib
