/-
Bowst.L2.Ladder — one side of a level-2 book (`bowst-book/src/ladder.rs`).

Levels are kept sorted from worst to best, so the best level is last. Every
operation is the source's, as a function from the ladder before the call to
the returned result and the ladder after it: a call that fails still has an
"after", which is what the error contracts are about.

`Vec` is `List`, index for index. `slice::binary_search_by` is
`Bowst.Lib.binarySearchBy`. `sort_unstable_by` is an insertion sort by price:
the unstable sort may order levels of one price either way, and two of them
make `sortAndCheck` fail with that price whichever comes first.
-/
import Bowst.Lib.SortedKeys
import Bowst.Core.Units

namespace Bowst.L2

open Bowst.Core Bowst.Lib

/-- Invalid book input or configuration (`BookError`). -/
inductive BookError where
  | zeroCapacity
  | invalidPrice (side : Side) (price : Price)
  | invalidQty (side : Side) (price : Price) (qty : Qty)
  | duplicateLevel (side : Side) (price : Price)
  deriving DecidableEq, Repr

/-- Levels at the top of the book checked linearly before binary search. -/
def topScan : Nat := 16

/-- Aggregate resting quantity at one price. -/
structure Level where
  price : Price
  qty : Qty
  deriving DecidableEq, Repr

/-- What `Ladder.apply` did with an update. -/
inductive Applied where
  | inserted
  | updated
  | removed
  | unchanged
  | beyondHorizon
  deriving DecidableEq, Repr

/-- One side of the book. -/
structure Ladder where
  side : Side
  levels : List Level
  capacity : Nat
  horizon : Option Price
  deriving DecidableEq, Repr

/-- The level checks `apply` and `load` share. -/
def validate (side : Side) (price : Price) (qty : Qty) : Except BookError Unit :=
  if price ≤ 0 then .error (.invalidPrice side price)
  else if qty < 0 then .error (.invalidQty side price qty)
  else .ok ()

/-- The linear scan of the best levels, best first. `offset` counts the levels
already passed, so the current one sits at index `len - offset - 1`. -/
def scanTop (rank : Price → Ordering) (len : Nat) : Nat → List Level → Option (Except Nat Nat)
  | _, [] => none
  | offset, level :: rest =>
      let index := len - offset - 1
      match rank level.price with
      | .eq => some (.ok index)
      | .lt => some (.error (index + 1))
      | .gt => scanTop rank len (offset + 1) rest

/-- The first price that two neighbouring levels share
(`windows(2).find_map(..)`). -/
def firstRepeat : List Level → Option Price
  | a :: b :: rest => if a.price = b.price then some a.price else firstRepeat (b :: rest)
  | _ => none

namespace Ladder

/-- Creates an empty ladder that holds at most `capacity` levels. -/
def new (side : Side) (capacity : Nat) : Except BookError Ladder :=
  if capacity = 0 then .error .zeroCapacity
  else .ok { side, levels := [], capacity, horizon := none }

/-- Number of levels held. -/
def len (l : Ladder) : Nat := l.levels.length

/-- The best level. -/
def best (l : Ladder) : Option Level := l.levels.getLast?

/-- The `n`-th best level, counting from 0: two checked subtractions, then an
indexed read. -/
def nthBest (l : Ladder) (n : Nat) : Option Level :=
  if l.levels.length < n then none
  else if l.levels.length - n < 1 then none
  else l.levels[l.levels.length - n - 1]?

/-- Orders a level's price relative to `price`: `lt` means worse, `gt` better. -/
def rank (l : Ladder) (level price : Price) : Ordering :=
  match l.side with
  | .buy => compare level price
  | .sell => compare price level

/-- Finds `price`: `ok index` if held, `error index` where it would be inserted. -/
def search (l : Ladder) (price : Price) : Except Nat Nat :=
  let len := l.levels.length
  let scanned := min len topScan
  match scanTop (fun p => l.rank p price) len 0 (l.levels.reverse.take scanned) with
  | some found => found
  | none => binarySearchBy (fun level => l.rank level.price price) (l.levels.take (len - scanned))

/-- Whether `price` lies strictly beyond the horizon. -/
def isBeyondHorizon (l : Ladder) (price : Price) : Bool :=
  match l.horizon with
  | some horizon => l.side.isMoreAggressive horizon price
  | none => false

/-- Inserts a new level at its sorted `index`, dropping the worst level if full. -/
def insert (l : Ladder) (index : Nat) (level : Level) : Applied × Ladder :=
  if l.levels.length < l.capacity then
    (.inserted, { l with levels := l.levels.insertIdx index level })
  else if index = 0 then
    -- Worse than every level held: it becomes unknown territory.
    (.beyondHorizon, { l with horizon := l.levels.head?.map Level.price })
  else
    let levels := (l.levels.eraseIdx 0).insertIdx (index - 1) level
    (.inserted, { l with levels := levels, horizon := levels.head?.map Level.price })

/-- Sets the quantity at `price`. A quantity of zero removes the level. -/
def apply (l : Ladder) (price : Price) (qty : Qty) : Except BookError Applied × Ladder :=
  match validate l.side price qty with
  | .error err => (.error err, l)
  | .ok () =>
    if l.isBeyondHorizon price then (.ok .beyondHorizon, l)
    else
      match l.search price, decide (qty = 0) with
      | .ok index, true => (.ok .removed, { l with levels := l.levels.eraseIdx index })
      | .ok index, false =>
          (.ok .updated,
            { l with levels := l.levels.modify index (fun level => { level with qty := qty }) })
      | .error _, true => (.ok .unchanged, l)
      | .error index, false =>
          let (applied, l') := l.insert index { price, qty }
          (.ok applied, l')

/-- Removes every level and forgets the horizon. -/
def clear (l : Ladder) : Ladder := { l with levels := [], horizon := none }

/-- The order `sort_and_check` sorts by: worst price first. -/
def worseOrEqual (side : Side) (a b : Level) : Prop := side.key a.price ≤ side.key b.price

instance (side : Side) : DecidableRel (worseOrEqual side) :=
  fun a b => inferInstanceAs (Decidable (side.key a.price ≤ side.key b.price))

/-- Sorts the levels and rejects a repeated price. -/
def sortAndCheck (l : Ladder) : Except BookError Unit × Ladder :=
  let levels := l.levels.insertionSort (worseOrEqual l.side)
  let l' := { l with levels := levels }
  match firstRepeat levels with
  | some price => (.error (.duplicateLevel l.side price), l')
  | none => (.ok (), l')

/-- The loop of `load_inner`. Levels are pushed unsorted while there is room;
the first one past the capacity sorts what is held, and it and the rest are
searched and inserted one by one. -/
def loadInner (l : Ladder) (sorted : Bool) : List Level → Except BookError Unit × Ladder
  | [] => if sorted then (.ok (), l) else l.sortAndCheck
  | level :: rest =>
      match validate l.side level.price level.qty with
      | .error err => (.error err, l)
      | .ok () =>
        if level.qty = 0 then (.error (.invalidQty l.side level.price level.qty), l)
        else if l.levels.length < l.capacity then
          loadInner { l with levels := l.levels ++ [level] } sorted rest
        else
          match if sorted then (.ok (), l) else l.sortAndCheck with
          | (.error err, l') => (.error err, l')
          | (.ok (), l') =>
            match l'.search level.price with
            | .ok _ => (.error (.duplicateLevel l'.side level.price), l')
            | .error index => loadInner (l'.insert index level).2 true rest

/-- Replaces the contents with `levels`, given in any order. On error the ladder
is left empty. -/
def load (l : Ladder) (levels : List Level) : Except BookError Unit × Ladder :=
  match l.clear.loadInner false levels with
  | (.ok (), l') => (.ok (), l')
  | (.error err, l') => (.error err, l'.clear)

end Ladder

end Bowst.L2
