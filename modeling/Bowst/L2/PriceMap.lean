/-
Bowst.L2.PriceMap — what one side of a book IS: a map from prices to
resting quantities, with no capacity, no array and no horizon.

This is the abstract level the ladders refine. `set` is the meaning of one
level update (absolute quantities, zero removes), `ofLevels` the meaning of a
list of levels. The reference model of the source's property tests
(`bowst-book/tests/model.rs`) is the same map with a `BTreeMap` behind it.
-/
import Bowst.L2.Ladder

namespace Bowst.L2

open Bowst.Core

/-- The quantity resting at each price of one side, if any. -/
abbrev PriceMap := Price → Option Qty

namespace PriceMap

/-- No level at any price. -/
def empty : PriceMap := fun _ => none

/-- Sets the quantity at `price`; zero removes the level. -/
def set (m : PriceMap) (price : Price) (qty : Qty) : PriceMap :=
  Function.update m price (if qty = 0 then none else some qty)

/-- The map a list of levels describes. -/
def ofLevels (levels : List Level) : PriceMap :=
  fun p => (levels.find? (fun level => level.price = p)).map Level.qty

/-- Where a side's best level is: the most aggressive price that rests there. -/
def IsBest (m : PriceMap) (side : Side) (level : Level) : Prop :=
  m level.price = some level.qty ∧
    ∀ p q, m p = some q → side.isMoreAggressive p level.price = false

@[simp] theorem set_self (m : PriceMap) (p : Price) (q : Qty) :
    m.set p q p = if q = 0 then none else some q := by
  simp [set]

@[simp] theorem set_of_ne {m : PriceMap} {p p' : Price} (q : Qty) (h : p' ≠ p) :
    m.set p q p' = m p' := by
  simp [set, h]

@[simp] theorem ofLevels_nil (p : Price) : ofLevels [] p = none := rfl

@[simp] theorem ofLevels_cons (x : Level) (levels : List Level) (p : Price) :
    ofLevels (x :: levels) p = if x.price = p then some x.qty else ofLevels levels p := by
  unfold ofLevels
  by_cases h : x.price = p
  · simp [h]
  · simp [h]

/-- Sets every level of a list in order. -/
def setAll (m : PriceMap) (levels : List Level) : PriceMap :=
  levels.foldl (fun m level => m.set level.price level.qty) m

/-- Setting levels of distinct prices and non-zero quantities puts each of them
in the map and leaves the other prices alone. -/
theorem setAll_eq_some_iff : ∀ (levels : List Level) (m : PriceMap),
    (levels.map Level.price).Nodup → (∀ level ∈ levels, level.qty ≠ 0) → ∀ p q,
    m.setAll levels p = some q ↔
      (⟨p, q⟩ ∈ levels ∨ (∀ level ∈ levels, level.price ≠ p) ∧ m p = some q) := by
  intro levels
  induction levels with
  | nil => intro m _ _ p q; simp [setAll]
  | cons x xs ih =>
      intro m hnodup hqty p q
      rw [List.map_cons, List.nodup_cons] at hnodup
      have hstep : m.setAll (x :: xs) = (m.set x.price x.qty).setAll xs := rfl
      rw [hstep, ih _ hnodup.2 (fun level h => hqty level (List.mem_cons_of_mem _ h))]
      by_cases hp : p = x.price
      · subst hp
        have hnot : (⟨x.price, q⟩ : Level) ∉ xs :=
          fun h => hnodup.1 (List.mem_map.mpr ⟨_, h, rfl⟩)
        have hfresh : ∀ level ∈ xs, level.price ≠ x.price :=
          fun level h heq => hnodup.1 (List.mem_map.mpr ⟨level, h, heq⟩)
        have hx : (⟨x.price, q⟩ : Level) = x ↔ x.qty = q := by
          cases x; simp [eq_comm]
        simp [hnot, hx, hqty x (List.mem_cons_self ..)]
        exact fun _ => hfresh
      · have hne : (⟨p, q⟩ : Level) ≠ x := fun h => hp (congrArg Level.price h)
        simp [hne, set_of_ne _ hp, Ne.symm hp]

/-- Two best levels of one side are the same level. -/
theorem IsBest.unique {m : PriceMap} {side : Side} {a b : Level} (ha : m.IsBest side a)
    (hb : m.IsBest side b) : a = b := by
  have h1 := (Side.isMoreAggressive_eq_false_iff ..).mp (ha.2 _ _ hb.1)
  have h2 := (Side.isMoreAggressive_eq_false_iff ..).mp (hb.2 _ _ ha.1)
  have hp : a.price = b.price := Side.key_inj.mp (le_antisymm h2 h1)
  have hq : some a.qty = some b.qty := by rw [← ha.1, ← hb.1, hp]
  cases a; cases b
  simp_all

end PriceMap

end Bowst.L2
