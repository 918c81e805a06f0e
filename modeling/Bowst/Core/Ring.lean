/-
Bowst.Core.Ring — the bounded single-producer, single-consumer ring of values
(`bowst-core/src/ring.rs`), as two threads that take turns.

One step of a thread is one access to shared memory: a load or a store of `head` or
of a slot's `seq`, or a write or a read of a slot's value. What a call computes from
its own fields between two accesses happens in the step before. Positions are `usize`
counters that wrap at `2^64`. The capacity is a power of two, so `position & mask` is
`position % capacity`. A position outside the slots leaves the thread at `unreachable`,
reading a value that was never written at `uninit`, and there it stays.
-/
import Bowst.Core.BytesRing

namespace Bowst.Core

open Bowst.Lib

/-- Error from `channel`. -/
inductive RingError where
  | invalidCapacity (capacity : Nat)
  deriving DecidableEq, Repr

namespace Ring

/-- One ring slot: a sequence number, and a value once one was written. -/
structure Slot (α : Type) where
  seq : Nat
  value : Option α
  deriving DecidableEq, Repr

/-- Where a producer is in `push`, before its next access. -/
inductive ProducerPc (α : Type) where
  | idle
  | loadHead (value : α)
  | writeValue (value : α)
  | storeSeq (value : α)
  | unreachable
  deriving DecidableEq, Repr

/-- Where a consumer is in `pop`, before its next access. -/
inductive ConsumerPc (α : Type) where
  | idle
  | loadSeq
  | readValue
  | storeHead (value : α)
  | unreachable
  | uninit
  deriving DecidableEq, Repr

structure Producer (α : Type) where
  position : Nat
  cachedHead : Nat
  pc : ProducerPc α
  deriving DecidableEq, Repr

structure Consumer (α : Type) where
  position : Nat
  pc : ConsumerPc α
  deriving DecidableEq, Repr

/-- What a finished call of `push` returned. -/
inductive PushOutcome (α : Type) where
  | sent (value : α)
  | full (value : α)
  deriving DecidableEq, Repr

/-- What a finished call of `pop` returned. -/
abbrev PopOutcome (α : Type) := Option α

end Ring

/-- The shared fields and both sides. -/
structure Ring (α : Type) where
  head : Nat
  slots : List (Ring.Slot α)
  producer : Ring.Producer α
  consumer : Ring.Consumer α
  deriving DecidableEq, Repr

namespace Ring

variable {α : Type}

/-- `position.wrapping_add(1)`. -/
def nextPosition (position : Nat) : Nat := (position + 1) % usizeModulus

/-- Slots that do not start out looking published. -/
def empty (capacity : Nat) : Ring α where
  head := 0
  slots := (List.range capacity).map fun position => ⟨wrappingSub usizeModulus position 1, none⟩
  producer := ⟨0, 0, .idle⟩
  consumer := ⟨0, .idle⟩

/-- Creates a ring with room for `capacity` elements. -/
def channel (capacity : Nat) : Except RingError (Ring α) :=
  if capacity < 2 ∨ ¬ capacity.isPowerOfTwo then .error (.invalidCapacity capacity)
  else .ok (empty capacity)

def capacity (r : Ring α) : Nat := r.slots.length

/-- `slot`: the index of a position. -/
def index (r : Ring α) (position : Nat) : Nat := position % r.capacity

/-- A change of one slot. -/
def setSlot (r : Ring α) (i : Nat) (slot : Slot α) : Ring α :=
  { r with slots := r.slots.set i slot }

/-! ## The producer -/

def setProducerPc (r : Ring α) (pc : ProducerPc α) : Ring α :=
  { r with producer := { r.producer with pc } }

/-- Whether the ring looks full, going by the cached head. -/
def looksFull (r : Ring α) : Bool :=
  decide (wrappingSub usizeModulus r.producer.position r.producer.cachedHead ≥ r.capacity)

/-- Calls `push`. -/
def beginPush (r : Ring α) (value : α) : Ring α :=
  if r.looksFull then r.setProducerPc (.loadHead value) else r.setProducerPc (.writeValue value)

/-- Reads the shared head and looks again. -/
def loadHead (r : Ring α) (value : α) : Ring α × Option (PushOutcome α) :=
  let r := { r with producer := { r.producer with cachedHead := r.head } }
  if r.looksFull then (r.setProducerPc .idle, some (.full value))
  else (r.setProducerPc (.writeValue value), none)

/-- Writes the value into its slot. -/
def writeValue (r : Ring α) (value : α) : Ring α :=
  let i := r.index r.producer.position
  match r.slots[i]? with
  | some slot => (r.setSlot i { slot with value := some value }).setProducerPc (.storeSeq value)
  | none => r.setProducerPc .unreachable

/-- Publishes the slot. -/
def storeSeq (r : Ring α) (value : α) : Ring α × Option (PushOutcome α) :=
  let i := r.index r.producer.position
  let next := nextPosition r.producer.position
  match r.slots[i]? with
  | some slot =>
      let r := r.setSlot i { slot with seq := next }
      ({ r with producer := { r.producer with position := next, pc := .idle } }, some (.sent value))
  | none => (r.setProducerPc .unreachable, none)

/-- The next access of the producer. -/
def stepProducer (r : Ring α) : Ring α × Option (PushOutcome α) :=
  match r.producer.pc with
  | .idle => (r, none)
  | .loadHead value => r.loadHead value
  | .writeValue value => (r.writeValue value, none)
  | .storeSeq value => r.storeSeq value
  | .unreachable => (r, none)

/-! ## The consumer -/

def setConsumerPc (r : Ring α) (pc : ConsumerPc α) : Ring α :=
  { r with consumer := { r.consumer with pc } }

/-- Whether the slot at the read position is published: the load of `pop` and all of
`is_empty`. -/
def published (r : Ring α) : Option Bool :=
  r.slots[r.index r.consumer.position]?.map fun slot => slot.seq = nextPosition r.consumer.position

/-- `is_empty`, between two steps. -/
def isEmpty (r : Ring α) : Option Bool := r.published.map (!·)

def loadSeq (r : Ring α) : Ring α × Option (PopOutcome α) :=
  match r.published with
  | some true => (r.setConsumerPc .readValue, none)
  | some false => (r.setConsumerPc .idle, some none)
  | none => (r.setConsumerPc .unreachable, none)

/-- Reads the value out of its slot. -/
def readValue (r : Ring α) : Ring α :=
  match r.slots[r.index r.consumer.position]? with
  | some slot =>
      match slot.value with
      | some value => r.setConsumerPc (.storeHead value)
      | none => r.setConsumerPc .uninit
  | none => r.setConsumerPc .unreachable

/-- Gives back the slot. -/
def storeHead (r : Ring α) (value : α) : Ring α × Option (PopOutcome α) :=
  let next := nextPosition r.consumer.position
  ({ r with head := next, consumer := ⟨next, .idle⟩ }, some (some value))

/-- The next access of the consumer. -/
def stepConsumer (r : Ring α) : Ring α × Option (PopOutcome α) :=
  match r.consumer.pc with
  | .idle => (r, none)
  | .loadSeq => r.loadSeq
  | .readValue => (r.readValue, none)
  | .storeHead value => r.storeHead value
  | .unreachable => (r, none)
  | .uninit => (r, none)

/-! ## Interleavings -/

/-- What happens next in an interleaving: a side that is idle calls its operation, or a
side takes its next access. -/
inductive Action (α : Type) where
  | push (value : α)
  | producer
  | pop
  | consumer

/-- A ring, and what its calls have done so far: the values pushed and popped. -/
structure Run (α : Type) where
  ring : Ring α
  pushed : List α
  popped : List α

namespace Run

/-- A new ring. -/
def start (ring : Ring α) : Run α := ⟨ring, [], []⟩

def afterPush (s : Run α) (res : Ring α × Option (PushOutcome α)) : Run α :=
  { s with
    ring := res.1
    pushed := match res.2 with
      | some (.sent value) => s.pushed ++ [value]
      | _ => s.pushed }

def afterPop (s : Run α) (res : Ring α × Option (PopOutcome α)) : Run α :=
  { s with
    ring := res.1
    popped := match res.2 with
      | some (some value) => s.popped ++ [value]
      | _ => s.popped }

/-- One action. A call of a side that is not idle does not happen. -/
def step (s : Run α) : Action α → Run α
  | .push value =>
      match s.ring.producer.pc with
      | .idle => { s with ring := s.ring.beginPush value }
      | _ => s
  | .producer => s.afterPush s.ring.stepProducer
  | .pop =>
      match s.ring.consumer.pc with
      | .idle => { s with ring := s.ring.setConsumerPc .loadSeq }
      | _ => s
  | .consumer => s.afterPop s.ring.stepConsumer

end Run

end Ring

end Bowst.Core
