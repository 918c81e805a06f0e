/-
Bowst.L2.LadderTheorems — a bounded ladder refines the plain price map it
stands for.

`Ladder.Inv` is the representation invariant: strictly sorted worst to best,
positive prices and quantities, within capacity, nothing beyond the horizon.
`Ladder.Refines l m` is the meaning: at every price that is not beyond the
horizon the ladder holds exactly what `m` holds.

  §1 Search   — the top scan and the binary search together locate every price
                (`search_located`), so each branch of `apply` starts from a
                split of the levels.
  §2 Lookup   — holding a quantity at a price is membership of a level.
  §3 Insert   — the one edit that can move the horizon (`insert_spec`).
  §4 Apply    — one update keeps `Inv` and follows `PriceMap.set`.
  §5 Load     — the two phases of `load_inner`, the unsorted push and the
                searched insert, and the failed load.
  §6 Runs     — any sequence of calls.
-/
import Mathlib.Data.List.InsertIdx
import Bowst.L2.PriceMap

namespace Bowst.L2

open Bowst.Core Bowst.Lib

namespace Ladder

/-! ## §1 Search -/

/-- How good a level is on the ladder's side. -/
def levelKey (l : Ladder) (level : Level) : Int := l.side.key level.price

/-- The representation invariant of a ladder. -/
structure Inv (l : Ladder) : Prop where
  sorted : Ascending l.levelKey l.levels
  positive : ∀ level ∈ l.levels, 0 < level.price ∧ 0 < level.qty
  bounded : l.levels.length ≤ l.capacity
  room : 0 < l.capacity
  known : ∀ level ∈ l.levels, l.isBeyondHorizon level.price = false

theorem rank_eq (l : Ladder) (a b : Price) :
    l.rank a b = compare (l.side.key a) (l.side.key b) := by
  unfold rank
  cases l.side with
  | buy => rfl
  | sell =>
      simp only [Side.key]
      rcases lt_trichotomy a b with h | h | h
      · rw [compare_gt_iff_gt.mpr h, compare_gt_iff_gt.mpr (Int.neg_lt_neg h)]
      · rw [compare_eq_iff_eq.mpr h.symm, compare_eq_iff_eq.mpr (congrArg Neg.neg h)]
      · rw [compare_lt_iff_lt.mpr h, compare_lt_iff_lt.mpr (Int.neg_lt_neg h)]

/-- The top scan, from any point of it: either it locates the price in the whole
list, or every level it looked at is better. -/
theorem scanTop_located (rank : Price → Ordering) {levels : List Level}
    (hp : Partitioned (fun level => rank level.price) levels) :
    ∀ (top : List Level) (front passed : List Level), levels = front ++ top.reverse ++ passed →
      (∀ y ∈ passed, rank y.price = .gt) →
      match scanTop rank levels.length passed.length top with
      | some r => Located (fun level => rank level.price) levels r
      | none => ∀ y ∈ top, rank y.price = .gt := by
  intro top
  induction top with
  | nil => intro front passed _ _; simp [scanTop]
  | cons level rest ih =>
      intro front passed hsplit hgt
      have hsplit' : levels = front ++ rest.reverse ++ (level :: passed) := by
        rw [hsplit]; simp
      have hindex : levels.length - passed.length - 1 = (front ++ rest.reverse).length := by
        rw [hsplit']; simp; omega
      rw [scanTop]
      cases hr : rank level.price with
      | eq =>
          exact ⟨front ++ rest.reverse, level, passed, hsplit', hindex.symm, hr⟩
      | lt =>
          refine ⟨front ++ rest.reverse ++ [level], passed, by rw [hsplit']; simp,
            by rw [hindex]; simp; omega, ?_, hgt⟩
          -- The list is partitioned, so what precedes a worse level is worse too.
          intro y hy
          rcases List.mem_append.mp hy with h | h
          · have hpair := hsplit' ▸ hp
            exact ((List.pairwise_append.mp hpair).2.2 y h level (List.mem_cons_self ..)).1
              (by simp [hr])
          · rw [List.mem_singleton.mp h]; exact hr
      | gt =>
          have hgt' : ∀ y ∈ level :: passed, rank y.price = .gt := by
            intro y hy
            rcases List.mem_cons.mp hy with rfl | h
            · exact hr
            · exact hgt y h
          have hrec := ih front (level :: passed) hsplit' hgt'
          simp only [List.length_cons] at hrec
          cases hs : scanTop rank levels.length (passed.length + 1) rest with
          | some r => rw [hs] at hrec; exact hrec
          | none =>
              rw [hs] at hrec
              intro y hy
              rcases List.mem_cons.mp hy with rfl | h
              · exact hr
              · exact hrec y h

/-- `search` locates every price in a sorted ladder. -/
theorem search_located {l : Ladder} (hs : Ascending l.levelKey l.levels) (price : Price) :
    Located (fun level => compare (l.levelKey level) (l.side.key price)) l.levels
      (l.search price) := by
  have hf : (fun level : Level => compare (l.levelKey level) (l.side.key price))
      = fun level => l.rank level.price price := by
    funext level; rw [rank_eq]; rfl
  have hp : Partitioned (fun level : Level => l.rank level.price price) l.levels := by
    rw [← hf]; exact hs.partitioned _
  rw [hf]
  unfold search
  generalize hk : min l.levels.length topScan = k
  have hk' : k ≤ l.levels.length := by rw [← hk]; exact Nat.min_le_left ..
  have htop : l.levels.reverse.take k = (l.levels.drop (l.levels.length - k)).reverse := by
    rw [List.take_reverse]
  have hsplit : l.levels = l.levels.take (l.levels.length - k)
      ++ (l.levels.reverse.take k).reverse ++ [] := by
    rw [htop, List.reverse_reverse, List.append_nil, List.take_append_drop]
  have hscan := scanTop_located (fun p => l.rank p price) hp
    (l.levels.reverse.take k) _ [] hsplit (by simp)
  simp only [List.length_nil] at hscan
  cases hres : scanTop (fun p => l.rank p price) l.levels.length 0 (l.levels.reverse.take k) with
  | some r => rw [hres] at hscan; simpa [hk, hres] using hscan
  | none =>
      rw [hres] at hscan
      have hdeep : Partitioned (fun level : Level => l.rank level.price price)
          (l.levels.take (l.levels.length - k)) := hp.sublist (List.take_sublist ..)
      have hloc := (binarySearchBy_located hdeep).append_right
        (l.levels.drop (l.levels.length - k)) (by
          intro y hy
          exact hscan y (by rw [htop]; simpa using hy))
      rw [List.take_append_drop] at hloc
      simpa [hk, hres] using hloc

/-! ## §2 Lookup -/

/-- The quantity the ladder holds at a price. -/
def qtyAt (l : Ladder) (price : Price) : Option Qty := PriceMap.ofLevels l.levels price

/-- The ladder's meaning: the map `m`, up to the horizon. -/
def Refines (l : Ladder) (m : PriceMap) : Prop :=
  ∀ p, l.isBeyondHorizon p = false → l.qtyAt p = m p

theorem ofLevels_eq_some_iff {levels : List Level}
    (hu : ∀ a ∈ levels, ∀ b ∈ levels, a.price = b.price → a = b) (p : Price) (q : Qty) :
    PriceMap.ofLevels levels p = some q ↔ ⟨p, q⟩ ∈ levels := by
  unfold PriceMap.ofLevels
  constructor
  · intro h
    obtain ⟨level, hfind, hq⟩ := Option.map_eq_some_iff.mp h
    have hmem := List.mem_of_find?_eq_some hfind
    have hp : level.price = p := by simpa using List.find?_some hfind
    obtain ⟨lp, lq⟩ := level
    cases hp; cases hq
    exact hmem
  · intro h
    have hsome : (levels.find? (fun level => decide (level.price = p))).isSome := by
      rw [List.find?_isSome]
      exact ⟨_, h, by simp⟩
    obtain ⟨level, hfind⟩ := Option.isSome_iff_exists.mp hsome
    have hp : level.price = p := by simpa using List.find?_some hfind
    have heq := hu _ (List.mem_of_find?_eq_some hfind) _ h hp
    rw [hfind, heq]
    rfl

theorem qtyAt_eq_some_iff {l : Ladder} (hs : Ascending l.levelKey l.levels) (p : Price) (q : Qty) :
    l.qtyAt p = some q ↔ ⟨p, q⟩ ∈ l.levels :=
  ofLevels_eq_some_iff
    (fun _ ha _ hb h => hs.eq_of_key ha hb (by unfold levelKey; rw [h])) p q

theorem eq_iff_some_iff {a b : Option Qty} : a = b ↔ ∀ q, a = some q ↔ b = some q := by
  constructor
  · rintro rfl q; rfl
  · intro h
    exact Option.ext h

/-- Refinement by membership, the form every edit is checked in. -/
theorem refines_iff {l : Ladder} (hs : Ascending l.levelKey l.levels) (m : PriceMap) :
    l.Refines m ↔ ∀ p q, l.isBeyondHorizon p = false → (⟨p, q⟩ ∈ l.levels ↔ m p = some q) := by
  unfold Refines
  constructor
  · intro h p q hb
    rw [← qtyAt_eq_some_iff hs, h p hb]
  · intro h p hb
    exact eq_iff_some_iff.mpr fun q => by rw [qtyAt_eq_some_iff hs, h p q hb]

theorem isBeyondHorizon_eq_false_iff (l : Ladder) (p : Price) :
    l.isBeyondHorizon p = false ↔ ∀ h, l.horizon = some h → l.side.key h ≤ l.side.key p := by
  unfold isBeyondHorizon
  cases l.horizon with
  | none => simp
  | some h => simp [Side.isMoreAggressive_eq_false_iff]

/-- A price better than one the horizon still covers is covered too. -/
theorem isBeyondHorizon_of_le {l : Ladder} {p p' : Price} (h : l.isBeyondHorizon p = false)
    (hle : l.side.key p ≤ l.side.key p') : l.isBeyondHorizon p' = false := by
  rw [isBeyondHorizon_eq_false_iff] at h ⊢
  intro x hx
  exact le_trans (h x hx) hle

/-- An edit at one price, checked by membership: the edited price holds the new
quantity, every other covered price holds what it held. -/
theorem Refines.edit {l l' : Ladder} {m : PriceMap} {price : Price} {qty : Qty}
    (href : l.Refines m) (hs : Ascending l.levelKey l.levels)
    (hs' : Ascending l'.levelKey l'.levels)
    (hcover : ∀ p, p ≠ price → l'.isBeyondHorizon p = false → l.isBeyondHorizon p = false)
    (hself : ∀ q, l'.isBeyondHorizon price = false →
      (⟨price, q⟩ ∈ l'.levels ↔ qty ≠ 0 ∧ q = qty))
    (hother : ∀ p q, p ≠ price → l'.isBeyondHorizon p = false →
      (⟨p, q⟩ ∈ l'.levels ↔ ⟨p, q⟩ ∈ l.levels)) :
    l'.Refines (m.set price qty) := by
  rw [refines_iff hs']
  intro p q hb
  by_cases hp : p = price
  · subst hp
    rw [hself q hb, PriceMap.set_self]
    by_cases hq : qty = 0
    · simp [hq]
    · simp [hq, eq_comm]
  · rw [hother p q hp hb, PriceMap.set_of_ne _ hp, (refines_iff hs m).mp href p q (hcover p hp hb)]

/-! ## §3 Insert -/

/-- In a sorted list a level at an entry's price is that entry. -/
theorem mem_split_iff {l : Ladder} {a b : List Level} {x : Level}
    (hs : Ascending l.levelKey (a ++ x :: b)) (q : Qty) :
    (⟨x.price, q⟩ : Level) ∈ a ++ x :: b ↔ q = x.qty := by
  constructor
  · intro h
    have hx : x ∈ a ++ x :: b := by simp
    have heq := hs.eq_of_key h hx rfl
    exact congrArg Level.qty heq
  · rintro rfl
    simp

theorem mem_split_of_ne {a b : List Level} {x : Level} {p : Price} {q : Qty}
    (hp : p ≠ x.price) : (⟨p, q⟩ : Level) ∈ a ++ x :: b ↔ (⟨p, q⟩ : Level) ∈ a ++ b := by
  have hne : (⟨p, q⟩ : Level) ≠ x := fun h => hp (congrArg Level.price h)
  simp [hne]

/-- A ladder cut to `levels`, with its horizon at the worst of them: what a full
ladder becomes when it has to drop a level. -/
def cutTo (l : Ladder) (levels : List Level) : Ladder :=
  { l with levels := levels, horizon := levels.head?.map Level.price }

theorem isBeyondHorizon_cutTo {l : Ladder} {w : Level} {rest : List Level} {p : Price} :
    (l.cutTo (w :: rest)).isBeyondHorizon p = false ↔ l.side.key w.price ≤ l.side.key p := by
  simp [cutTo, isBeyondHorizon, Side.isMoreAggressive_eq_false_iff]

theorem head_le_of_mem {l : Ladder} {w : Level} {rest : List Level}
    (hs : Ascending l.levelKey (w :: rest)) {y : Level} (hy : y ∈ w :: rest) :
    l.side.key w.price ≤ l.side.key y.price := by
  rcases List.mem_cons.mp hy with rfl | h
  · exact le_refl _
  · exact le_of_lt ((ascending_cons.mp hs).1 y h)

/-- Cutting to a non-empty sorted list within the capacity. Whatever the old
horizon covers must include the new worst level `w`. -/
theorem cutTo_spec {l : Ladder} {m : PriceMap} {levels : List Level} {price : Price} {qty : Qty}
    (hinv : l.Inv) (href : l.Refines m) (hs : Ascending l.levelKey levels) (hne : levels ≠ [])
    (hpos : ∀ y ∈ levels, 0 < y.price ∧ 0 < y.qty) (hlen : levels.length ≤ l.capacity)
    (hcov : ∀ y ∈ levels, ∃ w ∈ l.levels, l.levelKey w ≤ l.levelKey y)
    (hself : ∀ q, (l.cutTo levels).isBeyondHorizon price = false →
      (⟨price, q⟩ ∈ levels ↔ qty ≠ 0 ∧ q = qty))
    (hother : ∀ p q, p ≠ price → (l.cutTo levels).isBeyondHorizon p = false →
      (⟨p, q⟩ ∈ levels ↔ ⟨p, q⟩ ∈ l.levels)) :
    (l.cutTo levels).Inv ∧ (l.cutTo levels).Refines (m.set price qty) := by
  obtain ⟨h, rest, rfl⟩ := List.exists_cons_of_ne_nil hne
  refine ⟨⟨hs, hpos, hlen, hinv.room, ?_⟩, ?_⟩
  · intro y hy
    exact isBeyondHorizon_cutTo.mpr (head_le_of_mem hs hy)
  · refine href.edit hinv.sorted hs ?_ hself hother
    intro p _ hp
    obtain ⟨w, hw, hwh⟩ := hcov h (List.mem_cons_self ..)
    exact isBeyondHorizon_of_le (hinv.known w hw) (le_trans hwh (isBeyondHorizon_cutTo.mp hp))

section Located

variable {l : Ladder} {m : PriceMap} {a b : List Level} {x : Level}

/-- A located level stands where it belongs. -/
theorem Inv.located (hinv : l.Inv) (hl : l.levels = a ++ b)
    (ha : ∀ y ∈ a, l.levelKey y < l.levelKey x) (hb : ∀ y ∈ b, l.levelKey x < l.levelKey y)
    (hx : 0 < x.price ∧ 0 < x.qty) : Ascending l.levelKey (a ++ x :: b) ∧
      (∀ y, y ∈ a ++ x :: b ↔ y = x ∨ y ∈ l.levels) ∧
      (∀ y ∈ a ++ x :: b, 0 < y.price ∧ 0 < y.qty) ∧
      (a ++ x :: b).length = l.levels.length + 1 := by
  have hmem : ∀ y, y ∈ a ++ x :: b ↔ y = x ∨ y ∈ l.levels := by
    intro y; rw [hl]; simp; tauto
  refine ⟨(hl ▸ hinv.sorted).insert ha hb, hmem, ?_, by rw [hl]; simp; omega⟩
  intro y hy
  rcases (hmem y).mp hy with rfl | h
  · exact hx
  · exact hinv.positive y h

/-- Where there is room, the level is added. -/
theorem insert_spec_room (hinv : l.Inv) (href : l.Refines m) (hl : l.levels = a ++ b)
    (ha : ∀ y ∈ a, l.levelKey y < l.levelKey x) (hb : ∀ y ∈ b, l.levelKey x < l.levelKey y)
    (hx : 0 < x.price ∧ 0 < x.qty) (hroom : l.levels.length < l.capacity)
    (hcovered : l.isBeyondHorizon x.price = false) :
    ({ l with levels := a ++ x :: b } : Ladder).Inv ∧
      ({ l with levels := a ++ x :: b } : Ladder).Refines (m.set x.price x.qty) := by
  obtain ⟨hsnew, hmem, hpos, hlen⟩ := hinv.located hl ha hb hx
  refine ⟨⟨hsnew, hpos, le_trans (le_of_eq hlen) hroom, hinv.room, ?_⟩, ?_⟩
  · intro y hy
    rcases (hmem y).mp hy with rfl | h
    · exact hcovered
    · exact hinv.known y h
  · refine href.edit hinv.sorted hsnew (fun p _ h => h) ?_ ?_
    · intro q _
      rw [mem_split_iff hsnew]
      simp [ne_of_gt hx.2]
    · intro p q hp _
      rw [mem_split_of_ne hp, hl]

/-- A new level that is the worst of all is dropped, and the horizon closes on what is
held. -/
theorem insert_spec_worst (hinv : l.Inv) (href : l.Refines m) (hne : l.levels ≠ [])
    (hworst : ∀ y ∈ l.levels, l.levelKey x < l.levelKey y) :
    (l.cutTo l.levels).Inv ∧ (l.cutTo l.levels).Refines (m.set x.price x.qty) := by
  obtain ⟨w, rest, hw⟩ := List.exists_cons_of_ne_nil hne
  refine cutTo_spec hinv href hinv.sorted hne hinv.positive hinv.bounded
    (fun y hy => ⟨y, hy, le_refl _⟩) ?_ (fun p q _ _ => Iff.rfl)
  intro q h
  rw [hw] at h
  have hxw : l.levelKey x < l.levelKey w := hworst w (by rw [hw]; simp)
  exact absurd (isBeyondHorizon_cutTo.mp h) (not_le.mpr hxw)

/-- Any other new level drops the worst one held. -/
theorem insert_spec_evicts {w : Level} (hinv : l.Inv) (href : l.Refines m)
    (hl : l.levels = w :: a ++ b) (ha : ∀ y ∈ w :: a, l.levelKey y < l.levelKey x)
    (hb : ∀ y ∈ b, l.levelKey x < l.levelKey y) (hx : 0 < x.price ∧ 0 < x.qty) :
    (l.cutTo (a ++ x :: b)).Inv ∧ (l.cutTo (a ++ x :: b)).Refines (m.set x.price x.qty) := by
  obtain ⟨hsnew, -, hpos, hlen⟩ := hinv.located hl ha hb hx
  rw [List.cons_append] at hsnew hpos hlen
  obtain ⟨hbelow, hs'⟩ := ascending_cons.mp hsnew
  have hwl : w ∈ l.levels := by rw [hl]; simp
  refine cutTo_spec hinv href hs' (by simp) (fun y hy => hpos y (List.mem_cons_of_mem _ hy))
    ?_ (fun y hy => ⟨w, hwl, le_of_lt (hbelow y hy)⟩) ?_ ?_
  · have hle := hinv.bounded
    simp only [List.length_cons] at hlen
    omega
  · intro q _
    rw [mem_split_iff hs']
    simp [ne_of_gt hx.2]
  · intro p q hp hcov
    rw [mem_split_of_ne hp, hl]
    -- The dropped level is the only other difference, and it is beyond the new horizon.
    have hpw : (⟨p, q⟩ : Level) ≠ w := by
      rintro rfl
      obtain ⟨h, rest, hhead⟩ := List.exists_cons_of_ne_nil (show a ++ x :: b ≠ [] by simp)
      rw [hhead] at hcov hbelow
      exact absurd (isBeyondHorizon_cutTo.mp hcov)
        (not_le.mpr (hbelow h (List.mem_cons_self ..)))
    simp [hpw]

/-- The spec of `insert` at a located point. A full ladder drops its worst level
(or the new one) and moves the horizon; one with room must not be asked to
insert beyond it. -/
theorem insert_spec (hinv : l.Inv) (href : l.Refines m) (hl : l.levels = a ++ b)
    (ha : ∀ y ∈ a, l.levelKey y < l.levelKey x) (hb : ∀ y ∈ b, l.levelKey x < l.levelKey y)
    (hx : 0 < x.price ∧ 0 < x.qty)
    (hroom : l.levels.length < l.capacity → l.isBeyondHorizon x.price = false) :
    (l.insert a.length x).2.Inv ∧ (l.insert a.length x).2.Refines (m.set x.price x.qty) := by
  unfold insert
  by_cases hfull : l.levels.length < l.capacity
  · rw [if_pos hfull]
    simp only [hl, insertIdx_length_append]
    exact insert_spec_room hinv href hl ha hb hx hfull (hroom hfull)
  · rw [if_neg hfull]
    by_cases hzero : a.length = 0
    · rw [if_pos hzero]
      have hne : l.levels ≠ [] := by
        intro hnil
        have hroom' := hinv.room
        rw [hnil] at hfull
        exact hfull (by simpa using hroom')
      have hanil : a = [] := List.length_eq_zero_iff.mp hzero
      subst hanil
      exact insert_spec_worst hinv href hne fun y hy => hb y (by simpa [hl] using hy)
    · rw [if_neg hzero]
      obtain ⟨w, a', rfl⟩ := List.exists_cons_of_ne_nil
        (fun h : a = [] => hzero (List.length_eq_zero_iff.mpr h))
      have hedit : (l.levels.eraseIdx 0).insertIdx ((w :: a').length - 1) x = a' ++ x :: b := by
        rw [hl]
        simpa using insertIdx_length_append a' b x
      rw [hedit]
      exact insert_spec_evicts hinv href hl ha hb hx

end Located

/-- What a failed search says about sorted levels, in keys. -/
theorem search_error_sorted {l : Ladder} (hs : Ascending l.levelKey l.levels) {price : Price}
    {index : Nat} (h : l.search price = .error index) :
    ∃ a b, l.levels = a ++ b ∧ a.length = index ∧
      (∀ y ∈ a, l.levelKey y < l.side.key price) ∧ ∀ y ∈ b, l.side.key price < l.levelKey y := by
  have hloc := search_located hs price
  rw [h] at hloc
  obtain ⟨a, b, hl, hlen, ha, hb⟩ := hloc
  exact ⟨a, b, hl, hlen, fun y hy => compare_lt_iff_lt.mp (ha y hy),
    fun y hy => compare_gt_iff_gt.mp (hb y hy)⟩

theorem search_error_split {l : Ladder} (hinv : l.Inv) {price : Price} {index : Nat}
    (h : l.search price = .error index) :
    ∃ a b, l.levels = a ++ b ∧ a.length = index ∧
      (∀ y ∈ a, l.levelKey y < l.side.key price) ∧ ∀ y ∈ b, l.side.key price < l.levelKey y :=
  search_error_sorted hinv.sorted h

/-- What a successful search says: the level at the index has the price. -/
theorem search_ok_split {l : Ladder} (hinv : l.Inv) {price : Price} {index : Nat}
    (h : l.search price = .ok index) :
    ∃ a x b, l.levels = a ++ x :: b ∧ a.length = index ∧ x.price = price := by
  have hloc := search_located hinv.sorted price
  rw [h] at hloc
  obtain ⟨a, x, b, hl, hlen, hx⟩ := hloc
  exact ⟨a, x, b, hl, hlen, Side.key_inj.mp (compare_eq_iff_eq.mp hx)⟩

@[simp] theorem insert_side (l : Ladder) (index : Nat) (x : Level) :
    (l.insert index x).2.side = l.side := by
  unfold insert; split <;> (try split) <;> rfl

@[simp] theorem insert_capacity (l : Ladder) (index : Nat) (x : Level) :
    (l.insert index x).2.capacity = l.capacity := by
  unfold insert; split <;> (try split) <;> rfl

/-! ## §4 Apply -/

theorem validate_eq_ok_iff (side : Side) (price : Price) (qty : Qty) :
    validate side price qty = .ok () ↔ 0 < price ∧ 0 ≤ qty := by
  unfold validate
  by_cases hp : price ≤ 0
  · simp [hp, not_lt.mpr hp]
  · by_cases hq : qty < 0
    · simp [hp, hq, not_le.mpr hq]
    · simp [hp, hq, not_le.mp hp, not_lt.mp hq]

@[simp] theorem apply_side (l : Ladder) (price : Price) (qty : Qty) :
    (l.apply price qty).2.side = l.side := by
  unfold apply
  split
  · rfl
  · split
    · rfl
    · split <;> simp

@[simp] theorem apply_capacity (l : Ladder) (price : Price) (qty : Qty) :
    (l.apply price qty).2.capacity = l.capacity := by
  unfold apply
  split
  · rfl
  · split
    · rfl
    · split <;> simp

/-- A failed `apply` leaves the ladder as it was. -/
theorem apply_error {l : Ladder} {price : Price} {qty : Qty} {err : BookError}
    (h : (l.apply price qty).1 = .error err) : (l.apply price qty).2 = l := by
  unfold apply at h ⊢
  split at h
  · rfl
  · split at h
    · cases h
    · split at h <;> cases h

theorem apply_of_invalid {l : Ladder} {price : Price} {qty : Qty}
    (h : ¬ (0 < price ∧ 0 ≤ qty)) :
    ∃ err, validate l.side price qty = .error err ∧ l.apply price qty = (.error err, l) := by
  cases hv : validate l.side price qty with
  | ok u => exact absurd ((validate_eq_ok_iff ..).mp hv) h
  | error err => exact ⟨err, rfl, by simp [apply, hv]⟩

/-- Erasing the level found at a price. -/
theorem erase_spec {l : Ladder} {m : PriceMap} {a b : List Level} {x : Level}
    (hinv : l.Inv) (href : l.Refines m) (hl : l.levels = a ++ x :: b) :
    ({ l with levels := a ++ b } : Ladder).Inv ∧
      ({ l with levels := a ++ b } : Ladder).Refines (m.set x.price 0) := by
  have hsl : Ascending l.levelKey (a ++ x :: b) := hl ▸ hinv.sorted
  have hsub : ∀ y ∈ a ++ b, y ∈ l.levels := by
    intro y hy; rw [hl]; simp at hy ⊢; tauto
  refine ⟨⟨hsl.erase, fun y hy => hinv.positive y (hsub y hy), ?_, hinv.room,
    fun y hy => hinv.known y (hsub y hy)⟩, ?_⟩
  · have hle := hinv.bounded
    rw [hl] at hle
    simp at hle ⊢
    omega
  · refine href.edit hinv.sorted hsl.erase (fun p _ h => h) ?_ ?_
    · intro q _
      -- The erased price is nowhere else in a strictly sorted list.
      have hnot : (⟨x.price, q⟩ : Level) ∉ a ++ b := by
        intro hmem
        obtain ⟨hlt, hgt⟩ := hsl.split
        rcases List.mem_append.mp hmem with h | h
        · exact absurd (hlt _ h) (lt_irrefl _)
        · exact absurd (hgt _ h) (lt_irrefl _)
      simp [hnot]
    · intro p q hp _
      rw [hl, mem_split_of_ne hp]

/-- Replacing the quantity of the level found at a covered price. -/
theorem replace_spec {l : Ladder} {m : PriceMap} {a b : List Level} {x : Level} {qty : Qty}
    (hinv : l.Inv) (href : l.Refines m) (hl : l.levels = a ++ x :: b) (hq : 0 < qty) :
    ({ l with levels := a ++ ⟨x.price, qty⟩ :: b } : Ladder).Inv ∧
      ({ l with levels := a ++ ⟨x.price, qty⟩ :: b } : Ladder).Refines (m.set x.price qty) := by
  have hsl : Ascending l.levelKey (a ++ x :: b) := hl ▸ hinv.sorted
  have hs' : Ascending l.levelKey (a ++ ⟨x.price, qty⟩ :: b) := hsl.replace rfl
  have hxl : x ∈ l.levels := by rw [hl]; simp
  have hmem : ∀ y ∈ a ++ ⟨x.price, qty⟩ :: b, y = ⟨x.price, qty⟩ ∨ y ∈ l.levels := by
    intro y hy; rw [hl]; simp at hy ⊢; tauto
  refine ⟨⟨hs', ?_, ?_, hinv.room, ?_⟩, ?_⟩
  · intro y hy
    rcases hmem y hy with rfl | h
    · exact ⟨(hinv.positive x hxl).1, hq⟩
    · exact hinv.positive y h
  · have hle := hinv.bounded
    rw [hl] at hle
    simpa using hle
  · intro y hy
    rcases hmem y hy with rfl | h
    · exact hinv.known x hxl
    · exact hinv.known y h
  · refine href.edit hinv.sorted hs' (fun p _ h => h) ?_ ?_
    · intro q _
      rw [mem_split_iff (x := ⟨x.price, qty⟩) hs']
      simp [ne_of_gt hq]
    · intro p q hp _
      rw [hl, mem_split_of_ne hp, mem_split_of_ne (x := ⟨x.price, qty⟩) hp]

/-- Removing a price that has no level, or touching one beyond the horizon,
leaves the ladder and still follows the map. -/
theorem keep_spec {l : Ladder} {m : PriceMap} (hinv : l.Inv) (href : l.Refines m)
    {price : Price} {qty : Qty}
    (h : l.isBeyondHorizon price = false → qty = 0 ∧ ∀ q, (⟨price, q⟩ : Level) ∉ l.levels) :
    l.Refines (m.set price qty) := by
  refine href.edit hinv.sorted hinv.sorted (fun p _ h => h) ?_ (fun p q _ _ => Iff.rfl)
  intro q hb
  simp [(h hb).1, (h hb).2 q]

/-- The spec of `apply` on a valid update: it succeeds, keeps the invariant and
sets the price in the map. -/
theorem apply_spec {l : Ladder} {m : PriceMap} (hinv : l.Inv) (href : l.Refines m)
    {price : Price} {qty : Qty} (hv : 0 < price ∧ 0 ≤ qty) :
    (∃ applied, (l.apply price qty).1 = .ok applied) ∧ (l.apply price qty).2.Inv ∧
      (l.apply price qty).2.Refines (m.set price qty) := by
  unfold apply
  rw [(validate_eq_ok_iff l.side price qty).mpr hv]
  cases hbeyond : l.isBeyondHorizon price with
  | true =>
      simp only [if_true]
      refine ⟨⟨_, rfl⟩, hinv, keep_spec hinv href ?_⟩
      rw [hbeyond]
      intro h; cases h
  | false =>
      simp only [Bool.false_eq_true, if_false]
      cases hs : l.search price with
      | ok index =>
          obtain ⟨a, x, b, hl, rfl, rfl⟩ := search_ok_split hinv hs
          by_cases hq : qty = 0
          · simp only [hq, decide_true, hl, eraseIdx_length_append]
            exact ⟨⟨_, rfl⟩, erase_spec hinv href hl⟩
          · simp only [hq, decide_false, hl, modify_length_append]
            exact ⟨⟨_, rfl⟩, replace_spec hinv href hl (lt_of_le_of_ne hv.2 (Ne.symm hq))⟩
      | error index =>
          obtain ⟨a, b, hl, rfl, ha, hb⟩ := search_error_split hinv hs
          by_cases hq : qty = 0
          · simp only [hq, decide_true]
            refine ⟨⟨_, rfl⟩, hinv, keep_spec hinv href fun _ => ⟨rfl, ?_⟩⟩
            intro q hmem
            rw [hl] at hmem
            rcases List.mem_append.mp hmem with h | h
            · exact absurd (ha _ h) (lt_irrefl _)
            · exact absurd (hb _ h) (lt_irrefl _)
          · simp only [hq, decide_false]
            exact ⟨⟨_, rfl⟩, insert_spec (x := ⟨price, qty⟩) hinv href hl ha hb
              ⟨hv.1, lt_of_le_of_ne hv.2 (Ne.symm hq)⟩ (fun _ => hbeyond)⟩

/-- `apply` keeps the invariant whatever it is given. -/
theorem apply_inv {l : Ladder} (hinv : l.Inv) (price : Price) (qty : Qty) :
    (l.apply price qty).2.Inv := by
  by_cases hv : 0 < price ∧ 0 ≤ qty
  · exact (apply_spec hinv (m := l.qtyAt) (fun _ _ => rfl) hv).2.1
  · obtain ⟨err, _, h⟩ := apply_of_invalid hv
    rw [h]; exact hinv

/-! ## §5 Load -/

theorem clear_inv {l : Ladder} (h : 0 < l.capacity) : l.clear.Inv where
  sorted := ascending_nil
  positive := by simp [clear]
  bounded := by simp [clear]
  room := h
  known := by simp [clear]

theorem clear_refines (l : Ladder) : l.clear.Refines PriceMap.empty := by
  intro p _
  rfl

/-- A sorted list with no two neighbours of one price is strictly sorted, and
the other way round. -/
theorem firstRepeat_eq_none_iff {l : Ladder} : ∀ (levels : List Level),
    levels.Pairwise (worseOrEqual l.side) →
    (firstRepeat levels = none ↔ Ascending l.levelKey levels)
  | [], _ => by simp [firstRepeat]
  | [a], _ => by simp [firstRepeat, Ascending]
  | a :: b :: rest, h => by
      obtain ⟨ha, hrest⟩ := List.pairwise_cons.mp h
      have hab : l.levelKey a ≤ l.levelKey b := ha b (List.mem_cons_self ..)
      rw [firstRepeat]
      by_cases hp : a.price = b.price
      · simp only [hp, if_true, reduceCtorEq, false_iff]
        intro hasc
        have hlt := (ascending_cons.mp hasc).1 b (List.mem_cons_self ..)
        unfold levelKey at hlt
        rw [hp] at hlt
        exact absurd hlt (lt_irrefl _)
      · rw [if_neg hp, firstRepeat_eq_none_iff (b :: rest) hrest]
        have hlt : l.levelKey a < l.levelKey b :=
          lt_of_le_of_ne hab fun heq => hp (Side.key_inj.mp heq)
        constructor
        · intro hasc
          refine ascending_cons.mpr ⟨?_, hasc⟩
          intro y hy
          exact lt_of_lt_of_le hlt (head_le_of_mem hasc hy)
        · intro hasc
          exact (ascending_cons.mp hasc).2

instance (side : Side) : Std.Total (worseOrEqual side) :=
  ⟨fun a b => le_total (side.key a.price) (side.key b.price)⟩

instance (side : Side) : IsTrans Level (worseOrEqual side) :=
  ⟨fun _ _ _ hab hbc => le_trans (α := Int) hab hbc⟩

/-- The levels `sortAndCheck` leaves behind. -/
def sortedLevels (l : Ladder) : List Level := l.levels.insertionSort (worseOrEqual l.side)

theorem sortedLevels_perm (l : Ladder) : l.sortedLevels.Perm l.levels :=
  List.perm_insertionSort _ _

theorem sortAndCheck_snd (l : Ladder) :
    l.sortAndCheck.2 = { l with levels := l.sortedLevels } := by
  unfold sortAndCheck sortedLevels
  dsimp only
  cases firstRepeat (l.levels.insertionSort (worseOrEqual l.side)) <;> rfl

/-- `sortAndCheck` succeeds exactly on distinct prices. -/
theorem sortAndCheck_ok_iff (l : Ladder) :
    l.sortAndCheck.1 = .ok () ↔ Ascending l.levelKey l.sortedLevels := by
  have hle : l.sortedLevels.Pairwise (worseOrEqual l.side) := List.pairwise_insertionSort _ _
  rw [← firstRepeat_eq_none_iff _ hle]
  unfold sortAndCheck sortedLevels
  dsimp only
  cases firstRepeat (l.levels.insertionSort (worseOrEqual l.side)) <;> simp

theorem sortAndCheck_ok_of_nodup {l : Ladder} (h : (l.levels.map Level.price).Nodup) :
    l.sortAndCheck.1 = .ok () := by
  rw [sortAndCheck_ok_iff]
  have hnodup : (l.sortedLevels.map Level.price).Nodup :=
    ((sortedLevels_perm l).map _).nodup_iff.mpr h
  have hle : l.sortedLevels.Pairwise (worseOrEqual l.side) := List.pairwise_insertionSort _ _
  have hne : l.sortedLevels.Pairwise (fun a b => a.price ≠ b.price) := List.pairwise_map.mp hnodup
  exact (hle.and hne).imp fun h => lt_of_le_of_ne h.1 fun heq => h.2 (Side.key_inj.mp heq)

/-- Strictly sorted levels have distinct prices. -/
theorem prices_nodup {l : Ladder} {levels : List Level} (hs : Ascending l.levelKey levels) :
    (levels.map Level.price).Nodup := by
  refine List.pairwise_map.mpr (hs.imp ?_)
  intro a b hlt heq
  unfold levelKey at hlt
  rw [heq] at hlt
  exact lt_irrefl _ hlt

/-- A ladder still in the push phase of a load: valid levels in the order they
came, no horizon. -/
structure Pushed (l : Ladder) : Prop where
  positive : ∀ level ∈ l.levels, 0 < level.price ∧ 0 < level.qty
  bounded : l.levels.length ≤ l.capacity
  room : 0 < l.capacity
  noHorizon : l.horizon = none

/-- Sorting what was pushed gives a ladder that means exactly those levels. -/
theorem Pushed.sorted_spec {l : Ladder} (h : l.Pushed) (hok : l.sortAndCheck.1 = .ok ()) :
    l.sortAndCheck.2.Inv ∧
      l.sortAndCheck.2.Refines (PriceMap.empty.setAll l.levels) := by
  have hs := (sortAndCheck_ok_iff l).mp hok
  have hperm := sortedLevels_perm l
  have hcover : ∀ p, ({ l with levels := l.sortedLevels } : Ladder).isBeyondHorizon p = false := by
    intro p; simp [isBeyondHorizon, h.noHorizon]
  have hnodup : (l.levels.map Level.price).Nodup :=
    (hperm.map _).nodup_iff.mp (prices_nodup hs)
  rw [sortAndCheck_snd]
  refine ⟨⟨hs, fun y hy => h.positive y (hperm.mem_iff.mp hy), ?_, h.room,
    fun y _ => hcover y.price⟩, ?_⟩
  · rw [hperm.length_eq]
    exact h.bounded
  · rw [refines_iff hs]
    intro p q _
    rw [PriceMap.setAll_eq_some_iff l.levels _ hnodup (fun y hy => ne_of_gt (h.positive y hy).2)]
    rw [hperm.mem_iff]
    simp [PriceMap.empty]

theorem insert_length_of_full {l : Ladder} {index : Nat} (x : Level)
    (hfull : l.levels.length = l.capacity) (hindex : index ≤ l.levels.length)
    (hroom : 0 < l.capacity) : (l.insert index x).2.levels.length = l.capacity := by
  unfold insert
  rw [if_neg (by omega)]
  split
  · exact hfull
  · rename_i hne
    have hlen : (l.levels.eraseIdx 0).length = l.levels.length - 1 :=
      List.length_eraseIdx_of_lt (by omega)
    show ((l.levels.eraseIdx 0).insertIdx (index - 1) x).length = l.capacity
    rw [List.length_insertIdx_of_le_length (by omega)]
    omega

/-- Both phases check every level before anything else. -/
theorem loadInner_ok_valid : ∀ (rest : List Level) {l : Ladder} {sorted : Bool},
    (l.loadInner sorted rest).1 = .ok () → ∀ y ∈ rest, 0 < y.price ∧ 0 < y.qty := by
  intro rest
  induction rest with
  | nil => intro l sorted _ y hy; cases hy
  | cons x rest ih =>
      intro l sorted hok y hy
      rw [loadInner] at hok
      cases hv : validate l.side x.price x.qty with
      | error err => simp [hv] at hok
      | ok u =>
          obtain ⟨hp, hq⟩ := (validate_eq_ok_iff ..).mp hv
          by_cases hz : x.qty = 0
          · simp only [hv, if_pos hz] at hok
            cases hok
          · have hx : 0 < x.price ∧ 0 < x.qty := ⟨hp, lt_of_le_of_ne hq (Ne.symm hz)⟩
            have hrest : ∀ y ∈ rest, 0 < y.price ∧ 0 < y.qty := by
              simp only [hv, if_neg hz] at hok
              split at hok
              · exact ih hok
              · split at hok
                · cases hok
                · split at hok
                  · cases hok
                  · exact ih hok
            rcases List.mem_cons.mp hy with rfl | h
            · exact hx
            · exact hrest y h

/-- A step of the insert phase, on a full ladder. -/
theorem loadInner_sorted_cons {l : Ladder} {x : Level} (hx : 0 < x.price ∧ 0 < x.qty)
    (hfull : l.levels.length = l.capacity) (rest : List Level) :
    l.loadInner true (x :: rest) = match l.search x.price with
      | .ok _ => (.error (.duplicateLevel l.side x.price), l)
      | .error index => (l.insert index x).2.loadInner true rest := by
  have hnot : ¬ l.levels.length < l.capacity := by omega
  rw [loadInner, (validate_eq_ok_iff ..).mpr ⟨hx.1, le_of_lt hx.2⟩]
  cases hsearch : l.search x.price <;>
    simp only [if_neg (ne_of_gt hx.2), if_neg hnot, if_true, hsearch]

/-- A step of the insert phase of a load that succeeds. -/
theorem loadInner_sorted_step {l : Ladder} {x : Level} {rest : List Level}
    (hfull : l.levels.length = l.capacity) (hok : (l.loadInner true (x :: rest)).1 = .ok ()) :
    (0 < x.price ∧ 0 < x.qty) ∧ ∃ index, l.search x.price = .error index ∧
      l.loadInner true (x :: rest) = (l.insert index x).2.loadInner true rest := by
  have hx := loadInner_ok_valid _ hok x (List.mem_cons_self ..)
  have hstep := loadInner_sorted_cons hx hfull rest
  refine ⟨hx, ?_⟩
  cases hs : l.search x.price with
  | ok index =>
      rw [hs] at hstep
      simp [hstep] at hok
  | error index =>
      rw [hs] at hstep
      exact ⟨index, rfl, hstep⟩

/-- The insert phase of a load, on a full ladder: if it succeeds, the result
means the map with the remaining levels set. -/
theorem loadInner_sorted_spec : ∀ (rest : List Level) {l : Ladder} {m : PriceMap},
    l.Inv → l.Refines m → l.levels.length = l.capacity → (l.loadInner true rest).1 = .ok () →
    (l.loadInner true rest).2.Inv ∧ (l.loadInner true rest).2.Refines (m.setAll rest) := by
  intro rest
  induction rest with
  | nil => intro l m hinv href _ _; exact ⟨hinv, href⟩
  | cons x rest ih =>
      intro l m hinv href hfull hok
      obtain ⟨hx, index, hs, hstep⟩ := loadInner_sorted_step hfull hok
      rw [hstep] at hok ⊢
      obtain ⟨a, b, hl, rfl, ha, hb⟩ := search_error_split hinv hs
      obtain ⟨h1, h2⟩ := insert_spec hinv href hl ha hb hx (fun h => absurd h (by omega))
      refine ih h1 h2 ?_ hok
      rw [insert_capacity]
      exact insert_length_of_full x hfull (by rw [hl]; simp) hinv.room

/-- A full ladder that sorts cleanly goes on as an already sorted one. -/
theorem loadInner_of_full {l : Ladder} {x : Level} {rest : List Level}
    (hx : 0 < x.price ∧ 0 < x.qty) (hfull : ¬ l.levels.length < l.capacity)
    (hok : l.sortAndCheck.1 = .ok ()) :
    l.loadInner false (x :: rest) = l.sortAndCheck.2.loadInner true (x :: rest) := by
  have hsnd := sortAndCheck_snd l
  have hfull' : ¬ l.sortAndCheck.2.levels.length < l.sortAndCheck.2.capacity := by
    rw [hsnd]
    simpa [(sortedLevels_perm l).length_eq] using hfull
  have hv : ∀ side, validate side x.price x.qty = .ok () :=
    fun side => (validate_eq_ok_iff ..).mpr ⟨hx.1, le_of_lt hx.2⟩
  have hpair : l.sortAndCheck = (.ok (), l.sortAndCheck.2) := by rw [← hok]
  rw [loadInner, loadInner]
  simp only [hv, if_neg (ne_of_gt hx.2), if_neg hfull, if_neg hfull', if_true, Bool.false_eq_true,
    if_false]
  rw [hpair]

/-- A level pushed while there is room. -/
theorem Pushed.push {l : Ladder} {x : Level} (h : l.Pushed) (hx : 0 < x.price ∧ 0 < x.qty)
    (hroom : l.levels.length < l.capacity) (rest : List Level) :
    ({ l with levels := l.levels ++ [x] } : Ladder).Pushed ∧ l.loadInner false (x :: rest)
      = ({ l with levels := l.levels ++ [x] } : Ladder).loadInner false rest := by
  refine ⟨⟨?_, by simpa using Nat.succ_le_of_lt hroom, h.room, h.noHorizon⟩, ?_⟩
  · intro y hy
    rcases List.mem_append.mp hy with hmem | hmem
    · exact h.positive y hmem
    · rw [List.mem_singleton.mp hmem]; exact hx
  · rw [loadInner, (validate_eq_ok_iff ..).mpr ⟨hx.1, le_of_lt hx.2⟩]
    simp only [if_neg (ne_of_gt hx.2), if_pos hroom]

/-- Sorting a ladder that is full leaves it full. -/
theorem Pushed.sorted_full {l : Ladder} (h : l.Pushed) (hfull : ¬ l.levels.length < l.capacity) :
    l.sortAndCheck.2.levels.length = l.sortAndCheck.2.capacity := by
  have hle := h.bounded
  rw [sortAndCheck_snd]
  show l.sortedLevels.length = l.capacity
  rw [(sortedLevels_perm l).length_eq]
  omega

/-- The first level past the capacity, in a load that succeeds. -/
theorem sortAndCheck_ok_of_load {l : Ladder} {x : Level} {rest : List Level}
    (hx : 0 < x.price ∧ 0 < x.qty) (hfull : ¬ l.levels.length < l.capacity)
    (hok : (l.loadInner false (x :: rest)).1 = .ok ()) : l.sortAndCheck.1 = .ok () := by
  cases hs : l.sortAndCheck with
  | mk res l' =>
      cases res with
      | ok u => rfl
      | error err =>
          rw [loadInner, (validate_eq_ok_iff ..).mpr ⟨hx.1, le_of_lt hx.2⟩] at hok
          simp only [if_neg (ne_of_gt hx.2), if_neg hfull, Bool.false_eq_true, if_false, hs] at hok
          cases hok

/-- The two phases of a load that succeeds: the levels pushed are sorted, and the rest is
inserted into a full ladder. -/
theorem Pushed.phases : ∀ (rest : List Level) {l : Ladder}, l.Pushed →
    (l.loadInner false rest).1 = .ok () → ∃ (l' : Ladder) (pushed inserted : List Level),
      rest = pushed ++ inserted ∧ l'.Pushed ∧ l'.levels = l.levels ++ pushed ∧
        l'.sortAndCheck.1 = .ok () ∧ (inserted ≠ [] → ¬ l'.levels.length < l'.capacity) ∧
        l.loadInner false rest = l'.sortAndCheck.2.loadInner true inserted := by
  intro rest
  induction rest with
  | nil =>
      intro l hl hok
      simp only [loadInner, Bool.false_eq_true, if_false] at hok ⊢
      refine ⟨l, [], [], rfl, hl, (List.append_nil _).symm, hok, fun h => absurd rfl h, ?_⟩
      rw [loadInner, if_pos rfl, ← hok]
  | cons x rest ih =>
      intro l hl hok
      have hx := loadInner_ok_valid _ hok x (List.mem_cons_self ..)
      by_cases hroom : l.levels.length < l.capacity
      · obtain ⟨hl', hpush⟩ := hl.push hx hroom rest
        rw [hpush] at hok ⊢
        obtain ⟨l', pushed, inserted, rfl, hpushed, hlevels, hsort, hfull, hload⟩ := ih hl' hok
        refine ⟨l', x :: pushed, inserted, rfl, hpushed, ?_, hsort, hfull, hload⟩
        exact hlevels.trans (List.append_cons ..).symm
      · have hsort := sortAndCheck_ok_of_load hx hroom hok
        exact ⟨l, [], x :: rest, rfl, hl, (List.append_nil _).symm, hsort, fun _ => hroom,
          loadInner_of_full hx hroom hsort⟩

/-- If the whole load succeeds, the result means exactly the levels pushed so far and the
rest. -/
theorem Pushed.load_spec (rest : List Level) {l : Ladder} (hl : l.Pushed)
    (hok : (l.loadInner false rest).1 = .ok ()) : (l.loadInner false rest).2.Inv ∧
      (l.loadInner false rest).2.Refines (PriceMap.empty.setAll (l.levels ++ rest)) := by
  obtain ⟨l', pushed, inserted, rfl, hpushed, hlevels, hsort, hfull, hload⟩ := hl.phases rest hok
  obtain ⟨hinv, href⟩ := hpushed.sorted_spec hsort
  rw [hload] at hok ⊢
  rw [← List.append_assoc, ← hlevels]
  cases inserted with
  | nil =>
      rw [List.append_nil]
      exact ⟨hinv, href⟩
  | cons x inserted =>
      have hspec := loadInner_sorted_spec (x :: inserted) hinv href
        (hpushed.sorted_full (hfull (List.cons_ne_nil x inserted))) hok
      rwa [PriceMap.setAll, PriceMap.setAll, ← List.foldl_append] at hspec

theorem insert_levels_subset {l : Ladder} {index : Nat} {x y : Level}
    (h : y ∈ (l.insert index x).2.levels) : y = x ∨ y ∈ l.levels := by
  unfold insert at h
  split at h
  · exact List.eq_or_mem_of_mem_insertIdx h
  · split at h
    · exact Or.inr h
    · rcases List.eq_or_mem_of_mem_insertIdx h with h' | h'
      · exact Or.inl h'
      · exact Or.inr (List.mem_of_mem_eraseIdx h')

/-- The insert phase cannot fail on fresh, distinct, valid levels. -/
theorem loadInner_sorted_ok : ∀ (rest : List Level) {l : Ladder}, l.Inv →
    l.levels.length = l.capacity → (∀ y ∈ rest, 0 < y.price ∧ 0 < y.qty) →
    (rest.map Level.price).Nodup → (∀ y ∈ rest, ∀ z ∈ l.levels, z.price ≠ y.price) →
    (l.loadInner true rest).1 = .ok () := by
  intro rest
  induction rest with
  | nil => intro l _ _ _ _ _; rfl
  | cons x rest ih =>
      intro l hinv hfull hvalid hnodup hfresh
      have hx := hvalid x (List.mem_cons_self ..)
      rw [loadInner_sorted_cons hx hfull]
      rw [List.map_cons, List.nodup_cons] at hnodup
      cases hs : l.search x.price with
      | ok index =>
          obtain ⟨a, z, b, hl, _, hz⟩ := search_ok_split hinv hs
          exact absurd hz (hfresh x (List.mem_cons_self ..) z (by rw [hl]; simp))
      | error index =>
          obtain ⟨a, b, hl, rfl, ha, hb⟩ := search_error_split hinv hs
          obtain ⟨hinv', _⟩ := insert_spec hinv (m := l.qtyAt) (fun _ _ => rfl) hl ha hb hx
            (fun h => absurd h (by omega))
          refine ih hinv' ?_ (fun y hy => hvalid y (List.mem_cons_of_mem _ hy)) hnodup.2 ?_
          · rw [insert_capacity]
            exact insert_length_of_full x hfull (by rw [hl]; simp) hinv.room
          · intro y hy z hz
            rcases insert_levels_subset hz with rfl | h
            · exact fun heq => hnodup.1 (List.mem_map.mpr ⟨y, hy, heq.symm⟩)
            · exact hfresh y (List.mem_cons_of_mem _ hy) z h

/-- The push phase cannot fail on distinct valid levels either. -/
theorem Pushed.load_ok : ∀ (rest : List Level) {l : Ladder}, l.Pushed →
    (∀ y ∈ rest, 0 < y.price ∧ 0 < y.qty) → ((l.levels ++ rest).map Level.price).Nodup →
    (l.loadInner false rest).1 = .ok () := by
  intro rest
  induction rest with
  | nil =>
      intro l _ _ hnodup
      simp only [loadInner, Bool.false_eq_true, if_false]
      exact sortAndCheck_ok_of_nodup (by simpa using hnodup)
  | cons x rest ih =>
      intro l hl hvalid hnodup
      have hx := hvalid x (List.mem_cons_self ..)
      by_cases hroom : l.levels.length < l.capacity
      · obtain ⟨hl', hpush⟩ := hl.push hx hroom rest
        rw [hpush]
        exact ih hl' (fun y hy => hvalid y (List.mem_cons_of_mem _ hy)) (by simpa using hnodup)
      · rw [List.map_append, List.nodup_append] at hnodup
        obtain ⟨hheld, hrest, hdisj⟩ := hnodup
        have hsort := sortAndCheck_ok_of_nodup hheld
        rw [loadInner_of_full hx hroom hsort]
        refine loadInner_sorted_ok _ (hl.sorted_spec hsort).1 (hl.sorted_full hroom) hvalid hrest ?_
        intro y hy z hz
        rw [sortAndCheck_snd] at hz
        exact hdisj _ (List.mem_map_of_mem ((sortedLevels_perm l).mem_iff.mp hz)) _
          (List.mem_map_of_mem hy)

theorem clear_pushed {l : Ladder} (h : 0 < l.capacity) : l.clear.Pushed where
  positive := by simp [clear]
  bounded := by simp [clear]
  room := h
  noHorizon := rfl

theorem loadInner_frame : ∀ (rest : List Level) (l : Ladder) (sorted : Bool),
    (l.loadInner sorted rest).2.side = l.side ∧
      (l.loadInner sorted rest).2.capacity = l.capacity := by
  intro rest
  induction rest with
  | nil =>
      intro l sorted
      rw [loadInner]
      split
      · exact ⟨rfl, rfl⟩
      · rw [sortAndCheck_snd]; exact ⟨rfl, rfl⟩
  | cons x rest ih =>
      intro l sorted
      have hsort : (if sorted = true then (Except.ok (), l) else l.sortAndCheck).2.side = l.side ∧
          (if sorted = true then (Except.ok (), l) else l.sortAndCheck).2.capacity
            = l.capacity := by
        split
        · exact ⟨rfl, rfl⟩
        · rw [sortAndCheck_snd]; exact ⟨rfl, rfl⟩
      rw [loadInner]
      split
      · exact ⟨rfl, rfl⟩
      · split
        · exact ⟨rfl, rfl⟩
        · split
          · exact ih _ _
          · split
            · rename_i hres; rw [hres] at hsort; exact hsort
            · rename_i l' hres
              rw [hres] at hsort
              split
              · exact hsort
              · rename_i index _
                have hrec := ih (l'.insert index x).2 true
                simp only [insert_side, insert_capacity] at hrec
                exact ⟨hrec.1.trans hsort.1, hrec.2.trans hsort.2⟩

theorem load_error {l : Ladder} {levels : List Level} {err : BookError}
    (h : (l.load levels).1 = .error err) : (l.load levels).2 = l.clear := by
  obtain ⟨hside, hcap⟩ := loadInner_frame levels l.clear false
  unfold load at h ⊢
  cases hres : l.clear.loadInner false levels with
  | mk res l' =>
      rw [hres] at hside hcap
      cases res with
      | ok u => simp [hres] at h
      | error e =>
          obtain ⟨s, ls, c, hz⟩ := l'
          simp only [clear] at hside hcap ⊢
          rw [hside, hcap]

theorem load_fst (l : Ladder) (levels : List Level) :
    (l.load levels).1 = (l.clear.loadInner false levels).1 := by
  unfold load
  cases hres : l.clear.loadInner false levels with
  | mk res l' => cases res <;> rfl

theorem load_snd_of_ok {l : Ladder} {levels : List Level} (h : (l.load levels).1 = .ok ()) :
    (l.load levels).2 = (l.clear.loadInner false levels).2 := by
  rw [load_fst] at h
  unfold load
  cases hres : l.clear.loadInner false levels with
  | mk res l' =>
      rw [hres] at h
      simp only at h
      rw [h]

/-- `load` keeps the invariant whatever it is given. -/
theorem load_inv {l : Ladder} (hroom : 0 < l.capacity) (levels : List Level) :
    (l.load levels).2.Inv := by
  cases hres : (l.load levels).1 with
  | error err => rw [load_error hres]; exact clear_inv hroom
  | ok u =>
      rw [load_snd_of_ok hres]
      rw [load_fst] at hres
      exact ((clear_pushed hroom).load_spec levels hres).1

/-- The spec of `load` on distinct prices: it succeeds exactly on valid levels,
and then the ladder means those levels. -/
theorem load_spec {l : Ladder} (hroom : 0 < l.capacity) {levels : List Level}
    (hnodup : (levels.map Level.price).Nodup) :
    ((l.load levels).1 = .ok () ↔ ∀ y ∈ levels, 0 < y.price ∧ 0 < y.qty) ∧
      ((l.load levels).1 = .ok () →
        (l.load levels).2.Refines (PriceMap.empty.setAll levels)) := by
  have hpushed := clear_pushed (l := l) hroom
  refine ⟨⟨?_, ?_⟩, ?_⟩
  · intro h
    rw [load_fst] at h
    exact loadInner_ok_valid levels h
  · intro hvalid
    rw [load_fst]
    exact hpushed.load_ok levels hvalid (by simpa [clear] using hnodup)
  · intro h
    rw [load_snd_of_ok h]
    rw [load_fst] at h
    simpa [clear] using (hpushed.load_spec levels h).2

@[simp] theorem load_side (l : Ladder) (levels : List Level) :
    (l.load levels).2.side = l.side := by
  cases h : (l.load levels).1 with
  | error err => rw [load_error h]; rfl
  | ok u => rw [load_snd_of_ok h, (loadInner_frame levels l.clear false).1]; rfl

@[simp] theorem load_capacity (l : Ladder) (levels : List Level) :
    (l.load levels).2.capacity = l.capacity := by
  cases h : (l.load levels).1 with
  | error err => rw [load_error h]; rfl
  | ok u => rw [load_snd_of_ok h, (loadInner_frame levels l.clear false).2]; rfl

/-! ## §6 Runs -/

theorem new_ok_iff (side : Side) (capacity : Nat) (l : Ladder) :
    Ladder.new side capacity = .ok l ↔
      0 < capacity ∧ l = { side, levels := [], capacity, horizon := none } := by
  unfold Ladder.new
  split
  · simp; omega
  · simp only [Except.ok.injEq]
    constructor
    · intro h; exact ⟨by omega, h.symm⟩
    · intro h; exact h.2.symm

/-- The best level held is the last, so nothing held is better. -/
theorem best_isBest {l : Ladder} {m : PriceMap} (hinv : l.Inv) (href : l.Refines m) {level : Level}
    (h : l.best = some level) : m.IsBest l.side level := by
  obtain ⟨front, hl⟩ := List.getLast?_eq_some_iff.mp h
  have hmem : level ∈ l.levels := by rw [hl]; simp
  have hknown := hinv.known level hmem
  refine ⟨((refines_iff hinv.sorted m).mp href level.price level.qty hknown).mp hmem, ?_⟩
  intro p q hpq
  rw [Side.isMoreAggressive_eq_false_iff]
  by_contra hlt
  rw [not_le] at hlt
  have hp := isBeyondHorizon_of_le hknown (le_of_lt hlt)
  have hheld := ((refines_iff hinv.sorted m).mp href p q hp).mpr hpq
  rw [hl, List.mem_append, List.mem_singleton] at hheld
  rcases hheld with hfront | heq
  · have hs := hl ▸ hinv.sorted
    have := (ascending_append.mp hs).2.2 _ hfront level (List.mem_singleton_self _)
    exact absurd this (not_lt.mpr (le_of_lt hlt))
  · rw [← heq] at hlt
    exact lt_irrefl _ hlt

end Ladder

/-- A call on a ladder. -/
inductive LadderCall where
  | apply (price : Price) (qty : Qty)
  | load (levels : List Level)
  | clear
  deriving DecidableEq, Repr

namespace LadderCall

/-- The ladder after a call. -/
def run (l : Ladder) : LadderCall → Ladder
  | .apply price qty => (l.apply price qty).2
  | .load levels => (l.load levels).2
  | .clear => l.clear

/-- What the call does to an unbounded map: set or remove a price, replace
everything, empty it. Invalid updates are ignored, an invalid snapshot empties. -/
def runMap (m : PriceMap) : LadderCall → PriceMap
  | .apply price qty => if 0 < price ∧ 0 ≤ qty then m.set price qty else m
  | .load levels =>
      if ∀ level ∈ levels, 0 < level.price ∧ 0 < level.qty then PriceMap.ofLevels levels
      else .empty
  | .clear => .empty

/-- No price twice in a loaded list. -/
def NoRepeat : LadderCall → Prop
  | .load levels => (levels.map Level.price).Nodup
  | _ => True

/-- Distinct prices make `ofLevels` and setting them one by one the same map. -/
theorem setAll_empty_eq_ofLevels {levels : List Level} (hnodup : (levels.map Level.price).Nodup)
    (hqty : ∀ level ∈ levels, level.qty ≠ 0) :
    PriceMap.empty.setAll levels = PriceMap.ofLevels levels := by
  funext p
  refine Ladder.eq_iff_some_iff.mpr fun q => ?_
  rw [PriceMap.setAll_eq_some_iff levels _ hnodup hqty, Ladder.ofLevels_eq_some_iff]
  · simp [PriceMap.empty]
  · exact fun a ha b hb h => List.inj_on_of_nodup_map hnodup ha hb h

/-- One call keeps the ladder in step with the map. -/
theorem run_spec {l : Ladder} {m : PriceMap} (hinv : l.Inv) (href : l.Refines m)
    {call : LadderCall} (hcall : call.NoRepeat) :
    (call.run l).Inv ∧ (call.run l).Refines (call.runMap m) ∧
      (call.run l).side = l.side ∧ (call.run l).capacity = l.capacity := by
  cases call with
  | apply price qty =>
      refine ⟨Ladder.apply_inv hinv price qty, ?_, Ladder.apply_side .., Ladder.apply_capacity ..⟩
      simp only [runMap]
      by_cases hv : 0 < price ∧ 0 ≤ qty
      · rw [if_pos hv]
        exact (Ladder.apply_spec hinv href hv).2.2
      · rw [if_neg hv]
        obtain ⟨err, _, h⟩ := Ladder.apply_of_invalid (l := l) hv
        simpa only [run, h] using href
  | load levels =>
      obtain ⟨hok, hspec⟩ := Ladder.load_spec hinv.room hcall
      refine ⟨Ladder.load_inv hinv.room levels, ?_, Ladder.load_side .., Ladder.load_capacity ..⟩
      simp only [runMap]
      by_cases hv : ∀ level ∈ levels, 0 < level.price ∧ 0 < level.qty
      · rw [if_pos hv, ← setAll_empty_eq_ofLevels hcall fun y hy => ne_of_gt (hv y hy).2]
        exact hspec (hok.mpr hv)
      · rw [if_neg hv]
        cases hres : (l.load levels).1 with
        | ok u => exact absurd (hok.mp hres) hv
        | error err =>
            simp only [run, Ladder.load_error hres]
            exact Ladder.clear_refines l
  | clear => exact ⟨Ladder.clear_inv hinv.room, Ladder.clear_refines l, rfl, rfl⟩

/-- A whole run keeps the ladder in step with the map. -/
theorem foldl_run_spec : ∀ (calls : List LadderCall) {l : Ladder} {m : PriceMap}, l.Inv →
    l.Refines m → (∀ call ∈ calls, call.NoRepeat) →
    (calls.foldl run l).Inv ∧ (calls.foldl run l).Refines (calls.foldl runMap m) ∧
      (calls.foldl run l).side = l.side ∧ (calls.foldl run l).capacity = l.capacity := by
  intro calls
  induction calls with
  | nil => intro l m hinv href _; exact ⟨hinv, href, rfl, rfl⟩
  | cons call calls ih =>
      intro l m hinv href hcalls
      obtain ⟨h1, h2, h3, h4⟩ := run_spec hinv href (hcalls call (List.mem_cons_self ..))
      obtain ⟨g1, g2, g3, g4⟩ := ih h1 h2 fun c hc => hcalls c (List.mem_cons_of_mem _ hc)
      exact ⟨g1, g2, g3.trans h3, g4.trans h4⟩

end LadderCall

/-- **A bounded ladder refines the unbounded price map.** After any sequence of
calls on a new ladder the levels are strictly sorted from worst to best, every
price and quantity is positive, the capacity holds, nothing is beyond the
horizon, every price not beyond it has exactly the map's quantity, and a failed
`apply` would change nothing. -/
theorem ladder_refines_price_map (side : Side) (capacity : Nat) (l : Ladder)
    (hnew : Ladder.new side capacity = .ok l) (calls : List LadderCall)
    (hcalls : ∀ call ∈ calls, call.NoRepeat) :
    let after := calls.foldl LadderCall.run l
    let map := calls.foldl LadderCall.runMap PriceMap.empty
    after.levels.Pairwise (fun a b => side.isMoreAggressive b.price a.price = true) ∧
      (∀ level ∈ after.levels, 0 < level.price ∧ 0 < level.qty) ∧
      after.len ≤ capacity ∧
      (∀ level ∈ after.levels, ∀ h, after.horizon = some h →
        side.isMoreAggressive h level.price = false) ∧
      (∀ p, (∀ h, after.horizon = some h → side.isMoreAggressive h p = false) →
        after.qtyAt p = map p) ∧
      (∀ price qty err, (after.apply price qty).1 = .error err →
        (after.apply price qty).2.levels = after.levels ∧
          (after.apply price qty).2.horizon = after.horizon) := by
  obtain ⟨hcap, rfl⟩ := (Ladder.new_ok_iff ..).mp hnew
  obtain ⟨hinv, href, hside, hcapacity⟩ := LadderCall.foldl_run_spec calls
    (Ladder.clear_inv (l := ⟨side, [], capacity, none⟩) hcap) (Ladder.clear_refines _) hcalls
  intro after map
  have hside' : after.side = side := hside
  have hcover : ∀ p, after.isBeyondHorizon p = false ↔
      ∀ h, after.horizon = some h → side.isMoreAggressive h p = false := by
    intro p
    rw [Ladder.isBeyondHorizon_eq_false_iff, hside']
    simp only [Side.isMoreAggressive_eq_false_iff]
  refine ⟨?_, hinv.positive, le_of_le_of_eq hinv.bounded hcapacity, ?_, ?_, ?_⟩
  · refine hinv.sorted.imp fun h => ?_
    rw [Side.isMoreAggressive_iff, ← hside']
    exact h
  · exact fun level hmem => (hcover level.price).mp (hinv.known level hmem)
  · exact fun p hp => href p ((hcover p).mpr hp)
  · intro price qty err h
    rw [Ladder.apply_error h]
    exact ⟨rfl, rfl⟩

/-- The full ladder of the source's unit test: a better level drops the worst
one, and a later removal leaves the horizon where it was. -/
theorem ladder_refines_price_map_at_horizon :
    let calls : List LadderCall := [.load [⟨100, 1⟩, ⟨101, 1⟩], .apply 102 1, .apply 102 0]
    let after := calls.foldl LadderCall.run ⟨.buy, [], 2, none⟩
    after.horizon = some 101 ∧
      after.qtyAt 101 = calls.foldl LadderCall.runMap PriceMap.empty 101 := by
  intro calls after
  have hcalls : ∀ call ∈ calls, call.NoRepeat := by simp [calls, LadderCall.NoRepeat]
  have hhorizon : after.horizon = some 101 := by decide
  refine ⟨hhorizon, ?_⟩
  refine (ladder_refines_price_map .buy 2 ⟨.buy, [], 2, none⟩ rfl calls hcalls).2.2.2.2.1 101 ?_
  intro h hh
  rw [hhorizon] at hh
  cases hh
  decide

end Bowst.L2
