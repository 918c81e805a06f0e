/-
Bowst.L2.LoadTheorems — what a snapshot load makes of levels given in any order.

`HoldsBest` is the meaning of a successful load: the best levels offered, as
many as fit, and a horizon exactly when some did not. It determines the ladder
(`HoldsBest.unique`), so on distinct prices the order cannot matter.

With a repeated price it can. The insert phase compares a level with what is
HELD, and a level dropped past the capacity is held no more, so its twin goes
unnoticed. `Keeps` carries that through the phases: a price offered twice is
beyond a full ladder. `load_judges_iff` is the exact extent of it.

  §1 Insert   — one step of the insert phase keeps `Keeps`.
  §2 Phases   — the whole load, and what it determines.
  §3 Orders   — an order in which every repeat meets a full ladder of better
                prices, which then lets it pass.
-/
import Mathlib.Data.List.Dedup
import Mathlib.Data.List.Perm.Subperm
import Bowst.L2.LadderTheorems

namespace Bowst.L2

open Bowst.Core Bowst.Lib

/-- How often a price is offered. -/
def offers (levels : List Level) (p : Price) : Nat := (levels.map Level.price).count p

/-- The distinct prices among `levels` that are better than `p`. -/
def betterPrices (side : Side) (levels : List Level) (p : Price) : List Price :=
  ((levels.map Level.price).filter (fun q => side.isMoreAggressive q p)).dedup

@[simp] theorem offers_append (xs ys : List Level) (p : Price) :
    offers (xs ++ ys) p = offers xs p + offers ys p := by
  simp [offers]

@[simp] theorem offers_singleton (x : Level) (p : Price) :
    offers [x] p = if x.price = p then 1 else 0 := by
  simp [offers, List.count_singleton]

theorem offers_pos_iff (levels : List Level) (p : Price) :
    0 < offers levels p ↔ ∃ y ∈ levels, y.price = p := by
  simp [offers, List.count_pos_iff]

theorem nodup_iff_offers (levels : List Level) :
    (levels.map Level.price).Nodup ↔ ∀ p, offers levels p ≤ 1 :=
  List.nodup_iff_count_le_one

theorem mem_betterPrices {side : Side} {levels : List Level} {p q : Price} :
    q ∈ betterPrices side levels p ↔ (∃ y ∈ levels, y.price = q) ∧ side.key p < side.key q := by
  simp [betterPrices, Side.isMoreAggressive_iff]

theorem betterPrices_nodup (side : Side) (levels : List Level) (p : Price) :
    (betterPrices side levels p).Nodup :=
  List.nodup_dedup _

namespace Ladder

/-- The ladder holds the best of the levels offered, as many as fit, and its
horizon is the worst of them once some did not. -/
structure HoldsBest (l : Ladder) (offered : List Level) : Prop where
  sorted : Ascending l.levelKey l.levels
  count : l.levels.length = min l.capacity offered.length
  among : ∀ y ∈ l.levels, y ∈ offered
  best : ∀ y ∈ offered, y ∉ l.levels → ∀ z ∈ l.levels, l.levelKey y < l.levelKey z
  horizon : l.horizon =
    if offered.length ≤ l.capacity then none else l.levels.head?.map Level.price

/-- What a load has made of the levels offered so far: a price it was offered
twice is worse than everything a full ladder holds. -/
structure Keeps (l : Ladder) (offered : List Level) : Prop extends l.HoldsBest offered where
  repeats : ∀ p, 1 < offers offered p →
    l.levels.length = l.capacity ∧ ∀ z ∈ l.levels, l.side.key p < l.levelKey z

/-! ## §1 Insert -/

/-- A full ladder takes the level in and drops the worst of them all. -/
theorem insert_of_full {l : Ladder} {a b : List Level} (x : Level) (hl : l.levels = a ++ b)
    (hfull : l.levels.length = l.capacity) :
    (l.insert a.length x).2 = l.cutTo (a ++ x :: b).tail := by
  unfold insert
  rw [if_neg (by omega)]
  cases a with
  | nil =>
      simp only [List.nil_append] at hl
      simp [cutTo, hl]
  | cons w a =>
      have hedit : (l.levels.eraseIdx 0).insertIdx a.length x = a ++ x :: b := by
        simpa [hl] using insertIdx_length_append a b x
      simp only [List.length_cons, Nat.add_eq_zero_iff, Nat.one_ne_zero, and_false, if_false,
        Nat.add_sub_cancel, hedit]
      rfl

@[simp] theorem cutTo_levels (l : Ladder) (levels : List Level) :
    (l.cutTo levels).levels = levels := rfl

@[simp] theorem cutTo_side (l : Ladder) (levels : List Level) :
    (l.cutTo levels).side = l.side := rfl

@[simp] theorem cutTo_capacity (l : Ladder) (levels : List Level) :
    (l.cutTo levels).capacity = l.capacity := rfl

@[simp] theorem cutTo_levelKey (l : Ladder) (levels : List Level) (y : Level) :
    (l.cutTo levels).levelKey y = l.levelKey y := rfl

@[simp] theorem cutTo_horizon (l : Ladder) (levels : List Level) :
    (l.cutTo levels).horizon = levels.head?.map Level.price := rfl

/-- Every level that is out after a step is worse than every level that is in. -/
theorem Keeps.tail_best {l : Ladder} {offered a b : List Level} {x : Level}
    (h : l.Keeps offered) (hl : l.levels = a ++ b) (hs : Ascending l.levelKey (a ++ x :: b))
    (y : Level) (hy : y ∈ offered ++ [x]) (hout : y ∉ (a ++ x :: b).tail) :
    ∀ z ∈ (a ++ x :: b).tail, l.levelKey y < l.levelKey z := by
  obtain ⟨w, rest, hw⟩ := List.exists_cons_of_ne_nil (show a ++ x :: b ≠ [] by simp)
  rw [hw] at hs hout ⊢
  obtain ⟨hbelow, _⟩ := ascending_cons.mp hs
  intro z hz
  by_cases hyw : y = w
  · rw [hyw]
    exact hbelow z hz
  · have hmem : y ∉ a ++ x :: b := by
      rw [hw]
      simp_all
    have hyx : y ≠ x := fun heq => hmem (by simp [heq])
    have hyheld : y ∉ l.levels := by
      rw [hl]
      simp at hmem ⊢
      tauto
    have hbest := h.best y (by simpa [hyx] using hy) hyheld
    -- The level dropped or `z` itself was held, and both are above what was out already.
    cases a with
    | nil =>
        simp only [List.nil_append, List.cons.injEq] at hw
        exact hbest z (by rw [hl, List.nil_append, hw.2]; exact hz)
    | cons v a =>
        simp only [List.cons_append, List.cons.injEq] at hw
        have hwl : w ∈ l.levels := by rw [hl, ← hw.1]; simp
        exact lt_trans (hbest w hwl) (hbelow z hz)

/-- A price that was offered before and is not held is worse than all that is. -/
theorem Keeps.twin_worse {l : Ladder} {offered a b : List Level} {x y : Level} (h : l.Keeps offered)
    (hl : l.levels = a ++ b) (ha : ∀ z ∈ a, l.levelKey z < l.levelKey x)
    (hb : ∀ z ∈ b, l.levelKey x < l.levelKey z) (hy : y ∈ offered) (hprice : y.price = x.price) :
    ∀ z ∈ l.levels, l.levelKey x < l.levelKey z := by
  have hkey : l.levelKey y = l.levelKey x := by
    unfold levelKey
    rw [hprice]
  have hout : y ∉ l.levels := by
    rw [hl]
    intro hmem
    rcases List.mem_append.mp hmem with hya | hyb
    · exact absurd (ha y hya) (by omega)
    · exact absurd (hb y hyb) (by omega)
  rw [← hkey]
  exact h.best y hy hout

/-- One step of the insert phase. -/
theorem Keeps.insert {l : Ladder} {offered a b : List Level} {x : Level} (h : l.Keeps offered)
    (hfull : l.levels.length = l.capacity) (hl : l.levels = a ++ b)
    (ha : ∀ y ∈ a, l.levelKey y < l.levelKey x) (hb : ∀ y ∈ b, l.levelKey x < l.levelKey y) :
    (l.insert a.length x).2.Keeps (offered ++ [x]) := by
  have hs : Ascending l.levelKey (a ++ x :: b) := (hl ▸ h.sorted).insert ha hb
  have hlen : (a ++ x :: b).tail.length = l.capacity := by
    rw [← hfull, hl]
    simp
  have hcap : l.capacity ≤ offered.length := by
    have hcount := h.count
    omega
  rw [insert_of_full x hl hfull]
  refine ⟨⟨hs.tail, ?_, ?_, ?_, ?_⟩, ?_⟩
  · simp only [cutTo_levels, cutTo_capacity, List.length_append, List.length_singleton]
    omega
  · intro y hy
    have hmem := List.mem_of_mem_tail hy
    have hheld : y ∈ l.levels → y ∈ offered := h.among y
    rw [hl] at hheld
    simp at hmem hheld ⊢
    tauto
  · exact h.tail_best hl hs
  · rw [cutTo_horizon, cutTo_levels, if_neg (by simp; omega)]
  · intro p hp
    refine ⟨hlen, ?_⟩
    rw [offers_append, offers_singleton] at hp
    by_cases hxp : x.price = p
    · rw [if_pos hxp] at hp
      obtain ⟨y, hy, hyp⟩ := (offers_pos_iff offered p).mp (by omega)
      have hworse := h.twin_worse hl ha hb hy (hyp.trans hxp.symm)
      have hnil : a = [] := by
        refine List.eq_nil_iff_forall_not_mem.mpr fun z hz => ?_
        have hzx := ha z hz
        have hxz := hworse z (by rw [hl]; simp [hz])
        omega
      subst hnil
      intro z hz
      rw [← hxp]
      exact hworse z (by rw [hl]; simpa using hz)
    · rw [if_neg hxp] at hp
      obtain ⟨_, hworse⟩ := h.repeats p (by omega)
      intro z hz
      have hmem := List.mem_of_mem_tail hz
      cases a with
      | nil => exact hworse z (by rw [hl]; simpa using hz)
      | cons w a =>
          have hw : l.side.key p < l.levelKey w := hworse w (by rw [hl]; simp)
          have hwz := (ascending_cons.mp hs).1 z (by simpa using hz)
          exact lt_trans hw hwz

/-! ## §2 Phases -/

/-- The insert phase of a load that succeeds. -/
theorem loadInner_sorted_keeps : ∀ (rest : List Level) {l : Ladder} {offered : List Level},
    l.Keeps offered → l.levels.length = l.capacity → (l.loadInner true rest).1 = .ok () →
    (l.loadInner true rest).2.Keeps (offered ++ rest) := by
  intro rest
  induction rest with
  | nil => intro l offered h _ _; simpa [loadInner] using h
  | cons x rest ih =>
      intro l offered h hfull hok
      obtain ⟨_, index, hs, hstep⟩ := loadInner_sorted_step hfull hok
      rw [hstep] at hok ⊢
      obtain ⟨a, b, hl, rfl, ha, hb⟩ := search_error_sorted h.sorted hs
      have hkeeps := h.insert hfull hl ha hb
      have hfull' : (l.insert a.length x).2.levels.length = (l.insert a.length x).2.capacity := by
        rw [insert_of_full x hl hfull, cutTo_levels, cutTo_capacity, ← hfull, hl]
        simp
      simpa using ih hkeeps hfull' hok

/-- Sorting what was pushed. -/
theorem Pushed.sorted_keeps {l : Ladder} (h : l.Pushed) (hok : l.sortAndCheck.1 = .ok ()) :
    l.sortAndCheck.2.Keeps l.levels := by
  have hs := (sortAndCheck_ok_iff l).mp hok
  have hperm := sortedLevels_perm l
  have hcap := h.bounded
  rw [sortAndCheck_snd]
  refine ⟨⟨hs, ?_, fun y hy => hperm.mem_iff.mp hy, ?_, ?_⟩, ?_⟩
  · show l.sortedLevels.length = min l.capacity l.levels.length
    rw [hperm.length_eq]
    omega
  · intro y hy hout
    exact absurd (hperm.mem_iff.mpr hy) hout
  · show l.horizon = _
    rw [if_pos hcap, h.noHorizon]
  · intro p hp
    have hnodup := (hperm.map Level.price).nodup_iff.mp (prices_nodup hs)
    have hle := (nodup_iff_offers l.levels).mp hnodup p
    omega

/-- Both phases of a load that succeeds. -/
theorem Pushed.load_keeps (rest : List Level) {l : Ladder} (hl : l.Pushed)
    (hok : (l.loadInner false rest).1 = .ok ()) :
    (l.loadInner false rest).2.Keeps (l.levels ++ rest) := by
  obtain ⟨l', pushed, inserted, rfl, hpushed, hlevels, hsort, hfull, hload⟩ := hl.phases rest hok
  have hkeeps := hpushed.sorted_keeps hsort
  rw [hload] at hok ⊢
  rw [← List.append_assoc, ← hlevels]
  cases inserted with
  | nil =>
      rw [List.append_nil]
      exact hkeeps
  | cons x inserted =>
      exact loadInner_sorted_keeps _ hkeeps (hpushed.sorted_full (hfull (List.cons_ne_nil x inserted))) hok

theorem load_keeps {l : Ladder} (hroom : 0 < l.capacity) {levels : List Level}
    (hok : (l.load levels).1 = .ok ()) : (l.load levels).2.Keeps levels := by
  rw [load_snd_of_ok hok]
  rw [load_fst] at hok
  simpa [clear] using (clear_pushed hroom).load_keeps levels hok

/-- What is held from one order of the levels is held from every other. -/
theorem HoldsBest.subset {l l' : Ladder} {offered offered' : List Level}
    (h : l.HoldsBest offered) (h' : l'.HoldsBest offered') (hperm : offered.Perm offered')
    (hside : l.side = l'.side) (hcap : l.capacity = l'.capacity) :
    ∀ y ∈ l.levels, y ∈ l'.levels := by
  intro y hy
  by_contra hout
  have hkey : ∀ z, l.levelKey z = l'.levelKey z := by
    intro z
    unfold levelKey
    rw [hside]
  have hbest' := h'.best y (hperm.mem_iff.mp (h.among y hy)) hout
  have hsub : ∀ z ∈ l'.levels, z ∈ l.levels := by
    intro z hz
    by_contra hzout
    have hzy := h.best z (hperm.mem_iff.mpr (h'.among z hz)) hzout y hy
    have hyz := hbest' z hz
    rw [hkey, hkey] at hzy
    omega
  have hnodup : (y :: l'.levels).Nodup := List.nodup_cons.mpr ⟨hout, h'.sorted.nodup⟩
  have hall : y :: l'.levels ⊆ l.levels := by
    intro z hz
    rcases List.mem_cons.mp hz with rfl | hz'
    · exact hy
    · exact hsub z hz'
  have hlen := (hnodup.subperm hall).length_le
  rw [List.length_cons, h.count, h'.count, hcap, hperm.length_eq] at hlen
  omega

/-- Holding the best of the same levels determines the ladder. -/
theorem HoldsBest.unique {l l' : Ladder} {offered offered' : List Level}
    (h : l.HoldsBest offered) (h' : l'.HoldsBest offered') (hperm : offered.Perm offered')
    (hside : l.side = l'.side) (hcap : l.capacity = l'.capacity) : l = l' := by
  have hkey : l.levelKey = l'.levelKey := by
    funext z
    unfold levelKey
    rw [hside]
  have hlevels : l.levels = l'.levels :=
    Ascending.eq_of_mem_iff h.sorted (hkey ▸ h'.sorted) fun y =>
      ⟨h.subset h' hperm hside hcap y, h'.subset h hperm.symm hside.symm hcap.symm y⟩
  have hhorizon : l.horizon = l'.horizon := by
    rw [h.horizon, h'.horizon, hlevels, hcap, hperm.length_eq]
  cases l
  cases l'
  simp_all

/-! ## §3 Orders -/

/-- A load that has left its push phase by the end of `xs` goes on from there. -/
theorem loadInner_append (ys : List Level) : ∀ (xs : List Level) {l : Ladder} {sorted : Bool},
    (l.loadInner sorted xs).1 = .ok () →
    (sorted = false → l.levels.length ≤ l.capacity ∧
      l.capacity < l.levels.length + xs.length) →
    l.loadInner sorted (xs ++ ys) = (l.loadInner sorted xs).2.loadInner true ys := by
  intro xs
  induction xs with
  | nil =>
      intro l sorted _ hlong
      cases sorted with
      | true => simp [loadInner]
      | false =>
          have hlen := hlong rfl
          simp only [List.length_nil] at hlen
          omega
  | cons x xs ih =>
      intro l sorted hok hlong
      rw [List.cons_append, loadInner]
      rw [loadInner] at hok ⊢
      cases hv : validate l.side x.price x.qty with
      | error err => simp [hv] at hok
      | ok u =>
          by_cases hz : x.qty = 0
          · simp only [hv, if_pos hz] at hok
            cases hok
          · simp only [hv, if_neg hz] at hok ⊢
            by_cases hroom : l.levels.length < l.capacity
            · simp only [if_pos hroom] at hok ⊢
              refine ih hok fun hsorted => ?_
              have hlen := hlong hsorted
              simp only [List.length_cons, List.length_append, List.length_nil] at hlen ⊢
              omega
            · simp only [if_neg hroom] at hok ⊢
              cases hsort : (if sorted = true then (Except.ok (), l) else l.sortAndCheck) with
              | mk res l' =>
                  cases res with
                  | error err => simp [hsort] at hok
                  | ok u =>
                      simp only [hsort] at hok ⊢
                      cases hsearch : l'.search x.price with
                      | ok index => simp [hsearch] at hok
                      | error index =>
                          simp only [hsearch] at hok ⊢
                          exact ih hok fun h => absurd h (by simp)

/-- Levels worse than everything a full ladder holds always pass. -/
theorem loadInner_beyond : ∀ (rest : List Level) {l : Ladder}, Ascending l.levelKey l.levels →
    l.levels.length = l.capacity → (∀ y ∈ rest, 0 < y.price ∧ 0 < y.qty) →
    (∀ y ∈ rest, ∀ z ∈ l.levels, l.levelKey y < l.levelKey z) →
    (l.loadInner true rest).1 = .ok () := by
  intro rest
  induction rest with
  | nil => intro l _ _ _ _; rfl
  | cons x rest ih =>
      intro l hs hfull hvalid hworse
      have hx := hworse x (List.mem_cons_self ..)
      rw [loadInner_sorted_cons (hvalid x (List.mem_cons_self ..)) hfull]
      have hloc := search_located hs x.price
      cases hsearch : l.search x.price with
      | ok index =>
          rw [hsearch] at hloc
          obtain ⟨a, z, b, hl, _, hz⟩ := hloc
          have heq : l.levelKey z = l.levelKey x := compare_eq_iff_eq.mp hz
          have hxz := hx z (by rw [hl]; simp)
          omega
      | error index =>
          obtain ⟨a, b, hl, rfl, ha, hb⟩ := search_error_sorted hs hsearch
          have hnil : a = [] := by
            refine List.eq_nil_iff_forall_not_mem.mpr fun z hz => ?_
            exact absurd (ha z hz) (lt_asymm (hx z (by rw [hl]; simp [hz])))
          subst hnil
          simp only [insert_of_full x hl hfull]
          have hheld : ([] ++ x :: b).tail = l.levels := by simpa using hl.symm
          rw [hheld]
          exact ih hs hfull (fun y hy => hvalid y (List.mem_cons_of_mem _ hy))
            fun y hy => hworse y (List.mem_cons_of_mem _ hy)

/-- A list cut into one level for each price and the repeats. -/
theorem exists_distinct_perm (levels : List Level) :
    ∃ distinct repeats : List Level, (distinct ++ repeats).Perm levels ∧ (distinct.map Level.price).Nodup ∧
      ∀ y ∈ levels, ∃ z ∈ distinct, z.price = y.price := by
  let distinct := levels.pwFilter (fun a b => a.price ≠ b.price)
  have hsublist : distinct.Sublist levels := List.pwFilter_sublist levels
  obtain ⟨repeats, hperm⟩ := hsublist.exists_perm_append
  refine ⟨distinct, repeats, hperm.symm, List.pairwise_map.mpr (List.pairwise_pwFilter _), ?_⟩
  intro y hy
  by_contra hnone
  simp only [not_exists, not_and] at hnone
  have hall := (List.forall_mem_pwFilter (R := fun a b : Level => a.price ≠ b.price)
    (by intro a b c hac; by_contra h; simp_all) y levels).mp
    (fun z hz heq => hnone z hz heq.symm)
  exact hall y hy rfl

/-- Prices better than `p` that are all offered and leave no room for `p`. -/
theorem HoldsBest.beyond {l : Ladder} {offered : List Level} {side : Side} {levels : List Level}
    {p : Price} (h : l.HoldsBest offered) (hside : l.side = side)
    (hprices : ∀ y ∈ levels, ∃ z ∈ offered, z.price = y.price)
    (hfull : l.capacity ≤ (betterPrices side levels p).length) :
    ∀ z ∈ l.levels, side.key p < l.levelKey z := by
  intro z hz
  by_contra hle
  have hsub : ∀ q ∈ z.price :: betterPrices side levels p, q ∈ l.levels.map Level.price := by
    intro q hq
    rcases List.mem_cons.mp hq with rfl | hbetter
    · exact List.mem_map_of_mem hz
    · obtain ⟨⟨y, hy, rfl⟩, hlt⟩ := mem_betterPrices.mp hbetter
      obtain ⟨x, hx, hxy⟩ := hprices y hy
      by_contra hout
      have hxout : x ∉ l.levels := fun hmem => hout (hxy ▸ List.mem_map_of_mem hmem)
      have hxz := h.best x hx hxout z hz
      have hxkey : l.levelKey x = side.key y.price := by
        unfold levelKey
        rw [hxy, hside]
      omega
  have hnot : z.price ∉ betterPrices side levels p := by
    intro hmem
    have hlt := (mem_betterPrices.mp hmem).2
    rw [← hside] at hlt hle
    exact hle hlt
  have hlen := ((List.nodup_cons.mpr ⟨hnot, betterPrices_nodup ..⟩).subperm hsub).length_le
  have hcount := h.count
  simp only [List.length_cons, List.length_map] at hlen
  omega

/-- If every repeat has a full ladder of better prices, some order of the
levels loads. -/
theorem exists_perm_load_ok {l : Ladder} (hroom : 0 < l.capacity) {levels : List Level}
    (hvalid : ∀ y ∈ levels, 0 < y.price ∧ 0 < y.qty)
    (hnodup : ¬ (levels.map Level.price).Nodup)
    (hfull : ∀ p, 1 < offers levels p → l.capacity ≤ (betterPrices l.side levels p).length) :
    ∃ order, order.Perm levels ∧ (l.load order).1 = .ok () := by
  obtain ⟨distinct, repeats, hperm, hdistinct, hprices⟩ := exists_distinct_perm levels
  refine ⟨distinct ++ repeats, hperm, ?_⟩
  have hmem : ∀ y ∈ distinct, y ∈ levels := fun y hy => hperm.subset (by simp [hy])
  have hload := (load_spec (l := l) hroom hdistinct).1.mpr fun y hy => hvalid y (hmem y hy)
  have hkeeps := load_keeps hroom hload
  have hoffers : ∀ p, offers levels p = offers distinct p + offers repeats p := by
    intro p
    rw [← offers_append]
    exact ((hperm.map Level.price).count_eq p).symm
  have hlong : l.capacity < distinct.length := by
    rw [nodup_iff_offers] at hnodup
    simp only [not_forall, not_le] at hnodup
    obtain ⟨p, hp⟩ := hnodup
    have hnot : p ∉ betterPrices l.side levels p :=
      fun hmem => lt_irrefl _ (mem_betterPrices.mp hmem).2
    have hsub : ∀ q ∈ p :: betterPrices l.side levels p, q ∈ distinct.map Level.price := by
      have hheld : ∀ q, (∃ y ∈ levels, y.price = q) → q ∈ distinct.map Level.price := by
        intro q ⟨y, hy, hyq⟩
        obtain ⟨z, hz, hzy⟩ := hprices y hy
        exact List.mem_map.mpr ⟨z, hz, hzy.trans hyq⟩
      intro q hq
      rcases List.mem_cons.mp hq with rfl | hbetter
      · exact hheld q ((offers_pos_iff levels q).mp (by omega))
      · exact hheld q (mem_betterPrices.mp hbetter).1
    have hlen := ((List.nodup_cons.mpr ⟨hnot, betterPrices_nodup ..⟩).subperm hsub).length_le
    have hbetter := hfull p hp
    simp only [List.length_cons, List.length_map] at hlen
    omega
  have hheld : (l.load distinct).2.levels.length = (l.load distinct).2.capacity := by
    have hcount := hkeeps.count
    have hcap := load_capacity l distinct
    omega
  have hload' := hload
  rw [load_fst] at hload' ⊢
  rw [loadInner_append repeats distinct hload' fun _ => by simpa [clear] using hlong,
    ← load_snd_of_ok hload]
  refine loadInner_beyond repeats hkeeps.sorted hheld
    (fun y hy => hvalid y (hperm.subset (by simp [hy]))) ?_
  intro y hy z hz
  have hrepeated : 1 < offers levels y.price := by
    obtain ⟨x, hx, hxy⟩ := hprices y (hperm.subset (by simp [hy]))
    have hd := (offers_pos_iff distinct y.price).mpr ⟨x, hx, hxy⟩
    have hr := (offers_pos_iff repeats y.price).mpr ⟨y, hy, rfl⟩
    rw [hoffers]
    omega
  have hbeyond := hkeeps.toHoldsBest.beyond (load_side l distinct) hprices
    (by rw [load_capacity]; exact hfull y.price hrepeated) z hz
  unfold levelKey at hbeyond ⊢
  rw [load_side] at hbeyond ⊢
  exact hbeyond

/-- Whether two loads agree on success. -/
def sameVerdict (a b : Except BookError Unit) : Prop := a = .ok () ↔ b = .ok ()

/-- `load` judges and sorts `levels` by what they are, not by their order: it
succeeds exactly on valid levels of distinct prices, every order of them gets
the same verdict and the same ladder, a success holds the best levels that fit,
and a failure leaves nothing. -/
structure JudgesLevels (l : Ladder) (levels : List Level) : Prop where
  verdict : (l.load levels).1 = .ok () ↔
    (∀ y ∈ levels, 0 < y.price ∧ 0 < y.qty) ∧ (levels.map Level.price).Nodup
  anyOrder : ∀ order, order.Perm levels →
    sameVerdict (l.load order).1 (l.load levels).1 ∧ (l.load order).2 = (l.load levels).2
  holds : (l.load levels).1 = .ok () → (l.load levels).2.HoldsBest levels
  empties : (l.load levels).1 ≠ .ok () →
    (l.load levels).2.levels = [] ∧ (l.load levels).2.horizon = none

/-- A load that does not succeed leaves the cleared ladder. -/
theorem load_snd_of_not_ok {l : Ladder} {levels : List Level} (h : (l.load levels).1 ≠ .ok ()) :
    (l.load levels).2 = l.clear := by
  cases hres : (l.load levels).1 with
  | ok u => exact absurd hres h
  | error err => exact load_error hres

/-- A load judges its levels if success means the same of every order. -/
theorem judgesLevels_of_ok_iff {l : Ladder} (hroom : 0 < l.capacity) {levels : List Level}
    (hok : ∀ order, order.Perm levels → ((l.load order).1 = .ok () ↔
      (∀ y ∈ levels, 0 < y.price ∧ 0 < y.qty) ∧ (levels.map Level.price).Nodup)) :
    l.JudgesLevels levels where
  verdict := hok levels (List.Perm.refl _)
  anyOrder := by
    intro order hperm
    have hself := hok levels (List.Perm.refl _)
    refine ⟨(hok order hperm).trans hself.symm, ?_⟩
    by_cases hload : (l.load levels).1 = .ok ()
    · have horder := (hok order hperm).mpr (hself.mp hload)
      exact (load_keeps hroom horder).toHoldsBest.unique (load_keeps hroom hload).toHoldsBest
        hperm (by simp) (by simp)
    · have horder : (l.load order).1 ≠ .ok () :=
        fun h => hload (hself.mpr ((hok order hperm).mp h))
      rw [load_snd_of_not_ok hload, load_snd_of_not_ok horder]
  holds := fun h => (load_keeps hroom h).toHoldsBest
  empties := by
    intro h
    rw [load_snd_of_not_ok h]
    exact ⟨rfl, rfl⟩

end Ladder

/-- **When a load judges a snapshot whatever its order.** A snapshot with an
invalid level, or with no price twice, is always judged alike. One with a
repeated price is if and only if some repeated price has fewer distinct better
prices than the ladder can hold: then its twin is never out of sight. If every
repeated price is worse than a full ladder, some orders fail and some pass. -/
theorem load_judges_iff (l : Ladder) (hroom : 0 < l.capacity) (levels : List Level) :
    l.JudgesLevels levels ↔
      ((∀ y ∈ levels, 0 < y.price ∧ 0 < y.qty) → ¬ (levels.map Level.price).Nodup →
        ∃ p, 1 < (levels.map Level.price).count p ∧
          (betterPrices l.side levels p).length < l.capacity) := by
  constructor
  · intro hjudges hvalid hnodup
    by_contra hnone
    simp only [not_exists, not_and, not_lt] at hnone
    obtain ⟨order, hperm, hok⟩ := Ladder.exists_perm_load_ok hroom hvalid hnodup hnone
    have hlevels := (hjudges.anyOrder order hperm).1.mp hok
    exact hnodup (hjudges.verdict.mp hlevels).2
  · intro hseen
    refine Ladder.judgesLevels_of_ok_iff hroom fun order hperm => ?_
    have hvalid : (∀ y ∈ levels, 0 < y.price ∧ 0 < y.qty) ↔
        ∀ y ∈ order, 0 < y.price ∧ 0 < y.qty := by
      simp only [hperm.mem_iff]
    have hnodup := (hperm.map Level.price).nodup_iff
    by_cases hd : (levels.map Level.price).Nodup
    · rw [(Ladder.load_spec hroom (hnodup.mpr hd)).1, hvalid]
      simp [hd]
    · refine ⟨fun hok => absurd ?_ hd, fun h => absurd h.2 hd⟩
      have hvalid' : ∀ y ∈ order, 0 < y.price ∧ 0 < y.qty := by
        rw [Ladder.load_fst] at hok
        exact Ladder.loadInner_ok_valid order hok
      obtain ⟨p, hp, hroomp⟩ := hseen (hvalid.mpr hvalid') hd
      -- A load that succeeds has dropped both twins, so it holds better prices only.
      have hkeeps := Ladder.load_keeps hroom hok
      have hcount : 1 < offers order p := by
        unfold offers
        rwa [(hperm.map Level.price).count_eq]
      obtain ⟨hfull, hworse⟩ := hkeeps.repeats p hcount
      rw [Ladder.load_capacity] at hfull
      have hsub : ∀ q ∈ (l.load order).2.levels.map Level.price,
          q ∈ betterPrices l.side levels p := by
        intro q hq
        obtain ⟨z, hz, rfl⟩ := List.mem_map.mp hq
        have hlt := hworse z hz
        unfold Ladder.levelKey at hlt
        rw [Ladder.load_side] at hlt
        exact mem_betterPrices.mpr ⟨⟨z, hperm.mem_iff.mp (hkeeps.among z hz), rfl⟩, hlt⟩
      have hlen := ((Ladder.prices_nodup hkeeps.sorted).subperm hsub).length_le
      rw [List.length_map] at hlen
      omega

/-- The snapshot of the source's unit test, on a ladder of one level: the
repeated best price is always caught. -/
theorem load_judges_iff_at_best :
    (⟨.sell, [], 1, none⟩ : Ladder).JudgesLevels [⟨5, 1⟩, ⟨6, 1⟩, ⟨5, 1⟩] :=
  (load_judges_iff ⟨.sell, [], 1, none⟩ (by decide) _).mpr fun _ _ => ⟨5, by decide, by decide⟩

/-- With the worse price repeated instead, the order decides. -/
theorem load_misses_dropped_twin :
    ((⟨.sell, [], 1, none⟩ : Ladder).load [⟨6, 1⟩, ⟨5, 1⟩, ⟨6, 1⟩]).1 = .ok () ∧
      ((⟨.sell, [], 1, none⟩ : Ladder).load [⟨6, 1⟩, ⟨6, 1⟩, ⟨5, 1⟩]).1
        = .error (.duplicateLevel .sell 6) ∧
      ¬ (⟨.sell, [], 1, none⟩ : Ladder).JudgesLevels [⟨6, 1⟩, ⟨5, 1⟩, ⟨6, 1⟩] := by
  refine ⟨by decide, by decide, ?_⟩
  intro h
  have hdistinct := (h.verdict.mp (by decide)).2
  exact absurd hdistinct (by decide)

end Bowst.L2
