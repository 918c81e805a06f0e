/-
Bowst.Lib.SortedKeys — lists kept in strictly ascending order of a key, and
searching them.

A list sorted by key with no key twice is the array form of a finite map.
Everything a bounded sorted array does to its contents is one of four edits at
a position found by a search: insert, erase, replace, drop the first entry.
`Located` says what a search result means as a SPLIT of the list, so that each
edit becomes an equation between appended pieces and no proof below ever talks
about an index again.

`binarySearchBy` is the halving loop of the Rust standard library's
`slice::binary_search_by`: it keeps a base and a size, never compares an entry
twice, and decides the insertion point from one last comparison.
-/
import Mathlib.Data.List.Sort
import Mathlib.Order.Compare

namespace Bowst.Lib

variable {α κ : Type}

/-! ## Search results -/

/-- What a search result means for a list whose entries compare `lt` below the
wanted position and `gt` above it: `ok i` names an entry that compares equal,
`error i` the point where one would be inserted. -/
def Located (f : α → Ordering) (xs : List α) : Except Nat Nat → Prop
  | .ok i => ∃ a x b, xs = a ++ x :: b ∧ a.length = i ∧ f x = .eq
  | .error i => ∃ a b, xs = a ++ b ∧ a.length = i ∧
      (∀ y ∈ a, f y = .lt) ∧ ∀ y ∈ b, f y = .gt

/-- Appending entries that all compare above the wanted position does not move
the result of a search of the front. -/
theorem Located.append_right {f : α → Ordering} {xs : List α} {r : Except Nat Nat}
    (h : Located f xs r) (ys : List α) (hys : ∀ y ∈ ys, f y = .gt) :
    Located f (xs ++ ys) r := by
  cases r with
  | ok i =>
      obtain ⟨a, x, b, rfl, hlen, hx⟩ := h
      exact ⟨a, x, b ++ ys, by simp, hlen, hx⟩
  | error i =>
      obtain ⟨a, b, rfl, hlen, ha, hb⟩ := h
      refine ⟨a, b ++ ys, by simp, hlen, ha, ?_⟩
      intro y hy
      rcases List.mem_append.mp hy with h' | h'
      · exact hb y h'
      · exact hys y h'

/-! ## Binary search -/

/-- The halving loop: `base` is the first index of the window, `size` its
length. The fuel is spent once per halving, so the list length is enough. -/
def binarySearchLoop (f : α → Ordering) (xs : List α) : Nat → Nat → Nat → Nat
  | 0, base, _ => base
  | fuel + 1, base, size =>
      if size ≤ 1 then base
      else
        let half := size / 2
        let mid := base + half
        let base' := match xs[mid]? with
          | some x => if f x = .gt then base else mid
          | none => base
        binarySearchLoop f xs fuel base' (size - half)

/-- `slice::binary_search_by`. -/
def binarySearchBy (f : α → Ordering) (xs : List α) : Except Nat Nat :=
  if xs.isEmpty then .error 0
  else
    let base := binarySearchLoop f xs xs.length 0 xs.length
    match xs[base]? with
    | none => .error base
    | some x =>
      match f x with
      | .eq => .ok base
      | .lt => .error (base + 1)
      | .gt => .error base

/-- A comparison is monotone along a list when no entry that compares below
follows one that does not, and no entry that compares above precedes one that
does not. Sorting by a key gives it for every key. -/
def Partitioned (f : α → Ordering) (xs : List α) : Prop :=
  xs.Pairwise (fun a b => (f b ≠ .gt → f a = .lt) ∧ (f a ≠ .lt → f b = .gt))

theorem Partitioned.lt_of_index {f : α → Ordering} {xs : List α} (h : Partitioned f xs)
    {i j : Nat} {x y : α} (hij : i < j) (hx : xs[i]? = some x) (hy : xs[j]? = some y)
    (hfy : f y ≠ .gt) : f x = .lt := by
  obtain ⟨hi, rfl⟩ := List.getElem?_eq_some_iff.mp hx
  obtain ⟨hj, rfl⟩ := List.getElem?_eq_some_iff.mp hy
  exact ((List.pairwise_iff_getElem.mp h) i j hi hj hij).1 hfy

theorem Partitioned.gt_of_index {f : α → Ordering} {xs : List α} (h : Partitioned f xs)
    {i j : Nat} {x y : α} (hij : i < j) (hx : xs[i]? = some x) (hy : xs[j]? = some y)
    (hfx : f x ≠ .lt) : f y = .gt := by
  obtain ⟨hi, rfl⟩ := List.getElem?_eq_some_iff.mp hx
  obtain ⟨hj, rfl⟩ := List.getElem?_eq_some_iff.mp hy
  exact ((List.pairwise_iff_getElem.mp h) i j hi hj hij).2 hfx

/-- The loop's invariant, carried to its end: nothing above the window compares
at or below the wanted position, and unless the window still starts at the
front its first entry does not compare above it. -/
theorem binarySearchLoop_spec {f : α → Ordering} {xs : List α} (h : Partitioned f xs) :
    ∀ (fuel base size : Nat), size ≤ fuel → 0 < size → base + size ≤ xs.length →
      (∀ i x, base + size ≤ i → xs[i]? = some x → f x = .gt) →
      (base = 0 ∨ ∀ x, xs[base]? = some x → f x ≠ .gt) →
      let b := binarySearchLoop f xs fuel base size
      b < xs.length ∧ (∀ i x, b < i → xs[i]? = some x → f x = .gt) ∧
        (b = 0 ∨ ∀ x, xs[b]? = some x → f x ≠ .gt) := by
  intro fuel
  induction fuel with
  | zero => intro base size hfuel hpos; omega
  | succ fuel ih =>
      intro base size hfuel hpos hlen habove hbase
      rw [binarySearchLoop]
      by_cases hsize : size ≤ 1
      · rw [if_pos hsize]
        exact ⟨by omega, fun i x hi hx => habove i x (by omega) hx, hbase⟩
      · rw [if_neg hsize]
        have hmid : base + size / 2 < xs.length := by omega
        simp only [List.getElem?_eq_getElem hmid]
        by_cases hgt : f xs[base + size / 2] = .gt
        · rw [if_pos hgt]
          -- Everything from the midpoint on compares above, so the window keeps its base.
          refine ih base (size - size / 2) (by omega) (by omega) (by omega) ?_ hbase
          intro i x hi hx
          by_cases hlt : base + size / 2 < i
          · exact h.gt_of_index hlt (List.getElem?_eq_getElem hmid) hx (by rw [hgt]; decide)
          · have heq : i = base + size / 2 := by omega
            subst heq
            rw [List.getElem?_eq_getElem hmid] at hx
            cases hx
            exact hgt
        · rw [if_neg hgt]
          refine ih (base + size / 2) (size - size / 2) (by omega) (by omega) (by omega) ?_ ?_
          · intro i x hi hx
            exact habove i x (by omega) hx
          · right
            intro x hx
            rw [List.getElem?_eq_getElem hmid] at hx
            cases hx
            exact hgt

/-- A split of a list at an index, with what its two sides satisfy. -/
theorem exists_split_at {P Q : α → Prop} {xs : List α} {i : Nat} (hi : i ≤ xs.length)
    (hP : ∀ j x, j < i → xs[j]? = some x → P x)
    (hQ : ∀ j x, i ≤ j → xs[j]? = some x → Q x) :
    ∃ a b, xs = a ++ b ∧ a.length = i ∧ (∀ y ∈ a, P y) ∧ ∀ y ∈ b, Q y := by
  refine ⟨xs.take i, xs.drop i, (List.take_append_drop i xs).symm, by simp; omega, ?_, ?_⟩
  · intro y hy
    obtain ⟨j, hj, rfl⟩ := List.mem_take_iff_getElem.mp hy
    exact hP j _ (by omega) (List.getElem?_eq_getElem (by omega))
  · intro y hy
    obtain ⟨j, hj, rfl⟩ := List.mem_drop_iff_getElem.mp hy
    exact hQ (i + j) _ (by omega) (List.getElem?_eq_getElem (by omega))

/-- Binary search finds its position in every partitioned list. -/
theorem binarySearchBy_located {f : α → Ordering} {xs : List α} (h : Partitioned f xs) :
    Located f xs (binarySearchBy f xs) := by
  by_cases hnil : xs = []
  · subst hnil
    exact ⟨[], [], rfl, rfl, by simp, by simp⟩
  · have hpos : 0 < xs.length := List.length_pos_iff.mpr hnil
    obtain ⟨hb, hgt, hle⟩ := binarySearchLoop_spec h xs.length 0 xs.length (le_refl _) hpos
      (by omega)
      (fun i x hi hx => by
        have := (List.getElem?_eq_some_iff.mp hx).1
        omega)
      (Or.inl rfl)
    simp only [binarySearchBy, List.isEmpty_iff, hnil, if_false]
    generalize binarySearchLoop f xs xs.length 0 xs.length = b at hb hgt hle ⊢
    have hxb : xs[b]? = some xs[b] := List.getElem?_eq_getElem hb
    have hbelow : f xs[b] ≠ .gt → ∀ j x, j < b → xs[j]? = some x → f x = .lt :=
      fun hne j x hj hx => h.lt_of_index hj hx hxb hne
    simp only [hxb]
    cases hfx : f xs[b] with
    | eq =>
        refine ⟨xs.take b, xs[b], xs.drop (b + 1), ?_, by simp; omega, hfx⟩
        rw [← List.drop_eq_getElem_cons hb, List.take_append_drop]
    | lt =>
        refine exists_split_at (P := fun y => f y = .lt) (Q := fun y => f y = .gt)
          (by omega) ?_ (fun j x hj hx => hgt j x (by omega) hx)
        intro j x hj hx
        rcases Nat.lt_or_eq_of_le (Nat.le_of_lt_succ hj) with hlt | rfl
        · exact hbelow (by rw [hfx]; decide) j x hlt hx
        · rw [hxb] at hx
          cases hx
          exact hfx
    | gt =>
        -- The first entry compares above only when the window never left the front.
        have hb0 : b = 0 := by
          rcases hle with h0 | hne
          · exact h0
          · exact absurd hfx (hne _ hxb)
        subst hb0
        refine exists_split_at (P := fun y => f y = .lt) (Q := fun y => f y = .gt)
          (Nat.zero_le _) (fun j x hj _ => absurd hj (Nat.not_lt_zero j)) ?_
        intro j x _ hx
        rcases Nat.eq_zero_or_pos j with rfl | hj
        · rw [hxb] at hx
          cases hx
          exact hfx
        · exact hgt j x hj hx

/-! ## Edits at a split -/

theorem insertIdx_length_append (a b : List α) (x : α) :
    (a ++ b).insertIdx a.length x = a ++ x :: b := by
  induction a with
  | nil => simp
  | cons y a ih => simp [ih]

theorem eraseIdx_length_append (a b : List α) (x : α) :
    (a ++ x :: b).eraseIdx a.length = a ++ b := by
  induction a with
  | nil => simp
  | cons y a ih => simp [ih]

theorem modify_length_append (a b : List α) (x : α) (g : α → α) :
    (a ++ x :: b).modify a.length g = a ++ g x :: b := by
  induction a with
  | nil => simp
  | cons y a ih => simp [ih]

/-! ## Ascending lists -/

section Ascending

variable [LinearOrder κ] {key : α → κ}

/-- Strictly ascending by key. -/
def Ascending (key : α → κ) (xs : List α) : Prop :=
  xs.Pairwise (fun a b => key a < key b)

@[simp] theorem ascending_nil : Ascending key ([] : List α) := List.Pairwise.nil

theorem ascending_append {xs ys : List α} :
    Ascending key (xs ++ ys) ↔
      Ascending key xs ∧ Ascending key ys ∧ ∀ x ∈ xs, ∀ y ∈ ys, key x < key y :=
  List.pairwise_append

theorem ascending_cons {x : α} {xs : List α} :
    Ascending key (x :: xs) ↔ (∀ y ∈ xs, key x < key y) ∧ Ascending key xs :=
  List.pairwise_cons

/-- Comparing keys with a wanted key partitions an ascending list. -/
theorem Ascending.partitioned {xs : List α} (h : Ascending key xs) (k : κ) :
    Partitioned (fun x => compare (key x) k) xs := by
  refine h.imp ?_
  intro a b hab
  refine ⟨fun hb => compare_lt_iff_lt.mpr ?_, fun ha => compare_gt_iff_gt.mpr ?_⟩
  · exact lt_of_lt_of_le hab (not_lt.mp fun hlt => hb (compare_gt_iff_gt.mpr hlt))
  · exact lt_of_le_of_lt (not_lt.mp fun hlt => ha (compare_lt_iff_lt.mpr hlt)) hab

/-- Two entries of an ascending list with one key are one entry. -/
theorem Ascending.eq_of_key {xs : List α} (h : Ascending key xs) {x y : α}
    (hx : x ∈ xs) (hy : y ∈ xs) (hk : key x = key y) : x = y := by
  obtain ⟨i, hi, rfl⟩ := List.getElem_of_mem hx
  obtain ⟨j, hj, rfl⟩ := List.getElem_of_mem hy
  rcases Nat.lt_trichotomy i j with hij | rfl | hij
  · exact absurd hk (ne_of_lt (List.pairwise_iff_getElem.mp h i j hi hj hij))
  · rfl
  · exact absurd hk.symm (ne_of_lt (List.pairwise_iff_getElem.mp h j i hj hi hij))

/-- Dropping the first entry keeps the order. -/
theorem Ascending.tail {xs : List α} (h : Ascending key xs) : Ascending key xs.tail :=
  h.sublist (List.tail_sublist xs)

/-- The split around an entry: everything before it has a smaller key,
everything after it a larger one. -/
theorem Ascending.split {a b : List α} {x : α} (h : Ascending key (a ++ x :: b)) :
    (∀ y ∈ a, key y < key x) ∧ ∀ y ∈ b, key x < key y := by
  obtain ⟨_, hxb, hcross⟩ := ascending_append.mp h
  exact ⟨fun y hy => hcross y hy x (List.mem_cons_self ..), (ascending_cons.mp hxb).1⟩

/-- Inserting at the located point keeps the order. -/
theorem Ascending.insert {a b : List α} {x : α} (h : Ascending key (a ++ b))
    (ha : ∀ y ∈ a, key y < key x) (hb : ∀ y ∈ b, key x < key y) :
    Ascending key (a ++ x :: b) := by
  obtain ⟨h1, h2, h3⟩ := ascending_append.mp h
  refine ascending_append.mpr ⟨h1, ascending_cons.mpr ⟨hb, h2⟩, ?_⟩
  intro y hy z hz
  rcases List.mem_cons.mp hz with rfl | hz'
  · exact ha y hy
  · exact h3 y hy z hz'

/-- Erasing an entry keeps the order. -/
theorem Ascending.erase {a b : List α} {x : α} (h : Ascending key (a ++ x :: b)) :
    Ascending key (a ++ b) :=
  h.sublist (List.Sublist.append_left (List.sublist_cons_self x b) a)

/-- Replacing an entry by one with the same key keeps the order. -/
theorem Ascending.replace {a b : List α} {x x' : α} (h : Ascending key (a ++ x :: b))
    (hk : key x' = key x) : Ascending key (a ++ x' :: b) := by
  obtain ⟨hlt, hgt⟩ := h.split
  exact h.erase.insert (by rw [hk]; exact hlt) (by rw [hk]; exact hgt)

theorem Ascending.nodup {xs : List α} (h : Ascending key xs) : xs.Nodup :=
  h.imp fun hab heq => ne_of_lt hab (congrArg key heq)

/-- Ascending lists with the same entries are equal. -/
theorem Ascending.eq_of_mem_iff {xs ys : List α} (hx : Ascending key xs) (hy : Ascending key ys)
    (hmem : ∀ a, a ∈ xs ↔ a ∈ ys) : xs = ys :=
  List.Perm.eq_of_pairwise (fun _ _ _ _ hab hba => absurd hba (lt_asymm hab)) hx hy
    ((List.perm_ext_iff_of_nodup hx.nodup hy.nodup).mpr hmem)

/-- Entries of an ascending list that leave out none above them are its end. -/
theorem Ascending.suffix {xs ys : List α} (hx : Ascending key xs) (hy : Ascending key ys)
    (hsub : ∀ x ∈ xs, x ∈ ys) (hup : ∀ x ∈ xs, ∀ y ∈ ys, key x ≤ key y → y ∈ xs) : xs <:+ ys := by
  induction ys with
  | nil =>
      have hnil : xs = [] :=
        List.eq_nil_iff_forall_not_mem.mpr fun x hmem => List.not_mem_nil (hsub x hmem)
      subst hnil
      exact List.suffix_rfl
  | cons y ys ih =>
      obtain ⟨hlt, hys⟩ := ascending_cons.mp hy
      by_cases hmem : y ∈ xs
      · have hall : ∀ a ∈ y :: ys, a ∈ xs := by
          intro a ha
          rcases List.mem_cons.mp ha with rfl | ha'
          · exact hmem
          · exact hup y hmem a ha (le_of_lt (hlt a ha'))
        have heq : xs = y :: ys := hx.eq_of_mem_iff hy fun a => ⟨hsub a, hall a⟩
        subst heq
        exact List.suffix_rfl
      · refine (ih hys (fun x hxs => ?_) fun x hxs z hz => hup x hxs z (by simp [hz])).trans
          (List.suffix_cons y ys)
        rcases List.mem_cons.mp (hsub x hxs) with rfl | hmem'
        · exact absurd hxs hmem
        · exact hmem'

end Ascending

end Bowst.Lib
