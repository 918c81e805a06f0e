/-
Bowst.L2.Sync — a two-sided book and the sequencing that keeps it in step
with a venue's snapshot-plus-delta feed (`bowst-book/src/book.rs`,
`bowst-book/src/sync.rs`).

Operations are functions from the state before a call to the returned result
and the state after it. An `impl IntoIterator` argument is the list it yields.
The stored slices keep the source's representation: each buffered message has
a `(start, len)` window into one shared list of updates.
-/
import Bowst.L2.Ladder

namespace Bowst.L2

open Bowst.Core

/-! ## The two-sided book -/

/-- A change to one price level. A quantity of zero removes the level. -/
structure LevelUpdate where
  side : Side
  price : Price
  qty : Qty
  deriving DecidableEq, Repr

/-- Bids and asks for one instrument. -/
structure Book where
  bids : Ladder
  asks : Ladder
  deriving DecidableEq, Repr

namespace Book

/-- Creates an empty book holding at most `levelsPerSide` levels on each side. -/
def new (levelsPerSide : Nat) : Except BookError Book :=
  match Ladder.new .buy levelsPerSide, Ladder.new .sell levelsPerSide with
  | .ok bids, .ok asks => .ok { bids, asks }
  | .error err, _ => .error err
  | .ok _, .error err => .error err

/-- One side of the book. -/
def side (b : Book) : Side → Ladder
  | .buy => b.bids
  | .sell => b.asks

/-- Replaces one side of the book (`side_mut`). -/
def setSide (b : Book) (s : Side) (l : Ladder) : Book :=
  match s with
  | .buy => { b with bids := l }
  | .sell => { b with asks := l }

def bestBid (b : Book) : Option Level := b.bids.best

def bestAsk (b : Book) : Option Level := b.asks.best

/-- Whether the best bid is at or above the best ask. -/
def isCrossed (b : Book) : Bool :=
  match b.bestBid, b.bestAsk with
  | some bid, some ask => decide (bid.price ≥ ask.price)
  | _, _ => false

/-- Applies one level update. -/
def apply (b : Book) (u : LevelUpdate) : Except BookError Applied × Book :=
  let (res, l) := (b.side u.side).apply u.price u.qty
  (res, b.setSide u.side l)

/-- Empties both sides. -/
def clear (b : Book) : Book := { bids := b.bids.clear, asks := b.asks.clear }

/-- Replaces both sides with a snapshot. On error the whole book is left empty. -/
def load (b : Book) (bids asks : List Level) : Except BookError Unit × Book :=
  match b.bids.load bids with
  | (.error err, l) => (.error err, ({ b with bids := l } : Book).clear)
  | (.ok (), l) =>
    match b.asks.load asks with
    | (.error err, l') => (.error err, ({ bids := l, asks := l' } : Book).clear)
    | (.ok (), l') => (.ok (), { bids := l, asks := l' })

/-- Applies updates in order, stopping at the first error. -/
def applyAll (b : Book) : List LevelUpdate → Except BookError Unit × Book
  | [] => (.ok (), b)
  | u :: us =>
    match b.apply u with
    | (.error err, b') => (.error err, b')
    | (.ok _, b') => b'.applyAll us

end Book

/-! ## Sequence ranges and configuration -/

/-- An inclusive range of venue sequence numbers covered by one delta message. -/
structure SeqRange where
  first : Nat
  last : Nat
  le : first ≤ last
  bounded : last ≤ u64Max
  deriving DecidableEq, Repr

namespace SeqRange

/-- Builds `first..=last`. `none` if `first > last`; the sequence numbers are `u64`. -/
def new (first last : Nat) : Option SeqRange :=
  if h : first ≤ last ∧ last ≤ u64Max then some ⟨first, last, h.1, h.2⟩ else none

/-- Whether this range continues directly from `prev`, allowing overlap. -/
def continues (r : SeqRange) (prev : Nat) : Bool := decide (r.first ≤ saturatingAdd prev 1)

end SeqRange

/-- Sizes for a `BookSync`. -/
structure SyncConfig where
  levelsPerSide : Nat
  bufferedMessages : Nat
  bufferedUpdates : Nat
  deriving DecidableEq, Repr

/-- Why the book was invalidated or a snapshot was rejected. -/
inductive SyncError where
  | gap (expected : Nat) (got : SeqRange)
  | snapshotTooOld (snapshot : Nat) (firstBuffered : Nat)
  | crossed (bid ask : Price)
  | book (err : BookError)
  deriving DecidableEq, Repr

/-- What happened to a delta that did not cause an error. -/
inductive DeltaOutcome where
  | applied
  | buffered
  | stale
  deriving DecidableEq, Repr

/-- Counters for monitoring. -/
structure SyncStats where
  invalidations : Nat
  bufferResets : Nat
  staleDeltas : Nat
  deriving DecidableEq, Repr

/-! ## Error texts -/

def BookError.toText : BookError → String
  | .zeroCapacity => "book capacity must be at least 1"
  | .invalidPrice side price => s!"invalid {side.toText} price Price({price})"
  | .invalidQty side price qty =>
      s!"invalid {side.toText} quantity Qty({qty}) at Price({price})"
  | .duplicateLevel side price => s!"duplicate {side.toText} level at Price({price})"

def SyncError.toText : SyncError → String
  | .gap expected got => s!"sequence gap: expected {expected}, got {got.first}..={got.last}"
  | .snapshotTooOld snapshot firstBuffered =>
      s!"snapshot {snapshot} is older than buffered delta starting at {firstBuffered}"
  | .crossed bid ask => s!"crossed book: bid Price({bid}) >= ask Price({ask})"
  | .book err => err.toText

/-! ## The sync -/

/-- One buffered message: its range and its window of `pendingUpdates`. -/
structure Pending where
  range : SeqRange
  start : Nat
  len : Nat
  deriving DecidableEq, Repr

inductive SyncState where
  | awaitingSnapshot
  | live (last : Nat)
  deriving DecidableEq, Repr

/-- A book plus the sequencing state that keeps it correct. `internalBook` is
the field `book`; the accessor `BookSync::book` shows it only while live. -/
structure BookSync where
  internalBook : Book
  state : SyncState
  pending : List Pending
  pendingUpdates : List LevelUpdate
  config : SyncConfig
  stats : SyncStats
  deriving DecidableEq, Repr

/-- How replaying the buffered messages onto a loaded snapshot ends. -/
inductive Replayed where
  | caughtUp (book : Book) (cursor : Nat)
  | tooOld (firstBuffered : Nat)
  | invalid (err : BookError)
  deriving DecidableEq, Repr

/-- The updates of one buffered message. A position past the end of the shared
list ends the source's loop, as the end of the list does here. -/
def Pending.slice (p : Pending) (updates : List LevelUpdate) : List LevelUpdate :=
  (updates.drop p.start).take p.len

/-- The loop of `on_snapshot` over the buffered messages. -/
def replayPending (updates : List LevelUpdate) : List Pending → Book → Nat → Replayed
  | [], book, cursor => .caughtUp book cursor
  | message :: rest, book, cursor =>
      if message.range.last ≤ cursor then replayPending updates rest book cursor
      else if !message.range.continues cursor then .tooOld message.range.first
      else
        match book.applyAll (message.slice updates) with
        | (.error err, _) => .invalid err
        | (.ok (), book') => replayPending updates rest book' message.range.last

namespace BookSync

/-- Creates a sync waiting for its first snapshot. -/
def new (config : SyncConfig) : Except BookError BookSync :=
  if config.bufferedMessages = 0 ∨ config.bufferedUpdates = 0 then .error .zeroCapacity
  else
    match Book.new config.levelsPerSide with
    | .error err => .error err
    | .ok book =>
        .ok { internalBook := book, state := .awaitingSnapshot, pending := [],
              pendingUpdates := [], config, stats := ⟨0, 0, 0⟩ }

/-- The book, only while it is live and consistent with the feed. -/
def book (s : BookSync) : Option Book :=
  match s.state with
  | .live _ => some s.internalBook
  | .awaitingSnapshot => none

/-- Whether the book is live. -/
def isLive (s : BookSync) : Bool :=
  match s.state with
  | .live _ => true
  | .awaitingSnapshot => false

/-- Last sequence number applied, while live. -/
def lastSeq (s : BookSync) : Option Nat :=
  match s.state with
  | .live last => some last
  | .awaitingSnapshot => none

def invalidate (s : BookSync) : BookSync :=
  { s with
    internalBook := s.internalBook.clear
    state := .awaitingSnapshot
    pending := []
    pendingUpdates := []
    stats := { s.stats with invalidations := saturatingAdd s.stats.invalidations 1 } }

/-- Clears the book and waits for a new snapshot, for example after a reconnect. -/
def reset (s : BookSync) : BookSync := s.invalidate

def restartBuffer (s : BookSync) : BookSync :=
  { s with
    pending := []
    pendingUpdates := []
    stats := { s.stats with bufferResets := saturatingAdd s.stats.bufferResets 1 } }

def countStale (s : BookSync) : BookSync :=
  { s with stats := { s.stats with staleDeltas := saturatingAdd s.stats.staleDeltas 1 } }

/-- Copies a message's updates into the shared list. Out of room: nothing is
kept, and `false` is returned. -/
def pushUpdates (s : BookSync) : List LevelUpdate → Bool × BookSync
  | [] => (true, s)
  | u :: us =>
      if s.pendingUpdates.length ≥ s.config.bufferedUpdates then (false, s.restartBuffer)
      else pushUpdates { s with pendingUpdates := s.pendingUpdates ++ [u] } us

/-- The part of `buffer` after the chain checks. -/
def store (s : BookSync) (range : SeqRange) (updates : List LevelUpdate) : BookSync :=
  let s := if s.pending.length ≥ s.config.bufferedMessages then s.restartBuffer else s
  let start := s.pendingUpdates.length
  match s.pushUpdates updates with
  | (false, s') => s'
  | (true, s') =>
      { s' with pending := s'.pending ++ [⟨range, start, s'.pendingUpdates.length - start⟩] }

def buffer (s : BookSync) (range : SeqRange) (updates : List LevelUpdate) :
    DeltaOutcome × BookSync :=
  match s.pending.getLast? with
  | some prev =>
      if range.last ≤ prev.range.last then (.stale, s.countStale)
      else if !range.continues prev.range.last then
        -- No snapshot can bridge the break, so the older part is useless.
        (.buffered, s.restartBuffer.store range updates)
      else (.buffered, s.store range updates)
  | none => (.buffered, s.store range updates)

def checkCrossed (s : BookSync) : Except SyncError Unit × BookSync :=
  match s.internalBook.bestBid, s.internalBook.bestAsk with
  | some bid, some ask =>
      if bid.price ≥ ask.price then (.error (.crossed bid.price ask.price), s.invalidate)
      else (.ok (), s)
  | _, _ => (.ok (), s)

/-- Handles one delta message. -/
def onDelta (s : BookSync) (range : SeqRange) (updates : List LevelUpdate) :
    Except SyncError DeltaOutcome × BookSync :=
  match s.state with
  | .awaitingSnapshot =>
      let (outcome, s') := s.buffer range updates
      (.ok outcome, s')
  | .live last =>
      if range.last ≤ last then (.ok .stale, s.countStale)
      else if !range.continues last then
        (.error (.gap (saturatingAdd last 1) range), (s.invalidate.buffer range updates).2)
      else
        match s.internalBook.applyAll updates with
        | (.error err, book) =>
            (.error (.book err), ({ s with internalBook := book } : BookSync).invalidate)
        | (.ok (), book) =>
          match ({ s with internalBook := book, state := .live range.last } :
              BookSync).checkCrossed with
          | (.error err, s') => (.error err, s')
          | (.ok (), s') => (.ok .applied, s')

/-- The part of `on_snapshot` after the staleness check. -/
def useSnapshot (s : BookSync) (seq : Nat) (bids asks : List Level) :
    Except SyncError Bool × BookSync :=
  match s.internalBook.load bids asks with
  | (.error err, book) =>
      (.error (.book err), ({ s with internalBook := book } : BookSync).invalidate)
  | (.ok (), book) =>
    match replayPending s.pendingUpdates s.pending book seq with
    | .tooOld firstBuffered =>
        (.error (.snapshotTooOld seq firstBuffered),
          { s with internalBook := book.clear, state := .awaitingSnapshot })
    | .invalid err =>
        (.error (.book err), ({ s with internalBook := book } : BookSync).invalidate)
    | .caughtUp book' cursor =>
        match ({ s with internalBook := book', state := .live cursor, pending := [],
                        pendingUpdates := [] } : BookSync).checkCrossed with
        | (.error err, s') => (.error err, s')
        | (.ok (), s') => (.ok true, s')

/-- Loads a snapshot taken at sequence number `seq` and replays buffered deltas
after it. -/
def onSnapshot (s : BookSync) (seq : Nat) (bids asks : List Level) :
    Except SyncError Bool × BookSync :=
  match s.state with
  | .live last => if seq < last then (.ok false, s) else s.useSnapshot seq bids asks
  | .awaitingSnapshot => s.useSnapshot seq bids asks

end BookSync

end Bowst.L2
