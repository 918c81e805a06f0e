/-
Bowst.Core.BytesRing — the single-producer, single-consumer ring of byte records
(`bowst-core/src/bytes_ring.rs`), as two threads that take turns.

One step of a thread is one access to shared memory: a load or a store of `head`
or `tail`, or a read or a write of one region of the buffer. What a call computes
from its own fields between two accesses happens in the step before. Positions
are `usize` counters that wrap at `2^64`. The capacity is a power of two, so
`position & mask` is `position % capacity`; `len + 7 & !7` is written with a
division. `region` and `region_mut` check their bounds: outside them the thread
is at `unreachable` and stays there.
-/
import Bowst.Core.Fixed
import Bowst.Lib.Bytes

namespace Bowst.Core

open Bowst.Lib

/-- The number of values of a `usize`. Irreducible, so that no proof counts to it. -/
@[irreducible] def usizeModulus : Nat := 2 ^ 64

/-- Bytes before each record's payload. -/
def ringHeader : Nat := 8

/-- Length value marking "the rest of the buffer is padding; continue at the
start": `u32::MAX`. -/
def wrapMarker : Nat := 2 ^ 32 - 1

/-- Smallest allowed capacity. -/
def minCapacity : Nat := 64

/-- Error from `channel`: the capacity is not accepted. -/
inductive BytesRingError where
  | invalidCapacity (capacity : Nat)
  deriving DecidableEq, Repr

/-- Why a record was not written. -/
inductive WriteError where
  | full
  | tooLarge (len max : Nat)
  deriving DecidableEq, Repr

/-- Rounds up to the record alignment of 8. -/
def padded (len : Nat) : Nat := (len + 7) / 8 * 8

/-- A call of `write_with`: the length and the closure that fills the slice,
which can only change the slice's contents. -/
structure WriteCall where
  len : Nat
  fill : Bytes → Bytes
  length_fill : ∀ dst, (fill dst).length = dst.length

/-- `push` copies its bytes over the whole slice. The slice has the length asked
for; `copy_from_slice` has nothing to do with one of another length. -/
def WriteCall.push (bytes : Bytes) : WriteCall where
  len := bytes.length
  fill dst := if dst.length = bytes.length then bytes else dst
  length_fill dst := by split <;> simp_all

/-- Where a producer is in `write_with`, before its next access. -/
inductive ProducerPc where
  | idle
  | loadHead (call : WriteCall)
  | writeMarker (call : WriteCall)
  | fillPayload (call : WriteCall)
  | writeHeader (call : WriteCall) (record : Bytes)
  | storeTail (call : WriteCall) (record : Bytes)
  | unreachable

/-- The call in progress. -/
def ProducerPc.call? : ProducerPc → Option WriteCall
  | .loadHead call | .writeMarker call | .fillPayload call => some call
  | .writeHeader call _ | .storeTail call _ => some call
  | .idle | .unreachable => none

/-- Where a consumer is in `read_with`, before its next access. -/
inductive ConsumerPc where
  | idle
  | loadTail
  | readHeader
  | storeSkip
  | readPayload (len : Nat)
  | storeHead (len : Nat) (record : Bytes)
  | unreachable
  deriving DecidableEq, Repr

structure ByteProducer where
  tail : Nat
  cachedHead : Nat
  pc : ProducerPc

structure ByteConsumer where
  head : Nat
  cachedTail : Nat
  pc : ConsumerPc
  deriving DecidableEq, Repr

/-- The shared fields and both sides. -/
structure BytesRing where
  capacity : Nat
  buf : Bytes
  head : Nat
  tail : Nat
  producer : ByteProducer
  consumer : ByteConsumer

/-- What a finished call of `write_with` returned. A written record is the slice
as `fill` left it. -/
inductive WriteOutcome where
  | written (record : Bytes)
  | failed (err : WriteError)
  deriving DecidableEq, Repr

/-- What a finished call of `read_with` passed to `read`, if anything. -/
abbrev ReadOutcome := Option Bytes

/-- The record that a producer's step put into the ring. -/
def recordsWritten : Option WriteOutcome → List Bytes
  | some (.written record) => [record]
  | _ => []

@[simp] theorem recordsWritten_none : recordsWritten none = [] := rfl

@[simp] theorem recordsWritten_failed (err : WriteError) :
    recordsWritten (some (.failed err)) = [] := rfl

@[simp] theorem recordsWritten_written (record : Bytes) :
    recordsWritten (some (.written record)) = [record] := rfl

/-- The record that a consumer's step took out of the ring. -/
def recordsReturned : Option ReadOutcome → List Bytes
  | some (some record) => [record]
  | _ => []

@[simp] theorem recordsReturned_none : recordsReturned none = [] := rfl

@[simp] theorem recordsReturned_empty : recordsReturned (some none) = [] := rfl

@[simp] theorem recordsReturned_some (record : Bytes) :
    recordsReturned (some (some record)) = [record] := rfl

namespace BytesRing

/-- A ring of zeros, both sides at position 0. -/
def empty (capacity : Nat) : BytesRing :=
  { capacity, buf := List.replicate capacity 0, head := 0, tail := 0
    producer := ⟨0, 0, .idle⟩, consumer := ⟨0, 0, .idle⟩ }

/-- Creates a ring of `capacity` bytes. -/
def channel (capacity : Nat) : Except BytesRingError BytesRing :=
  if ¬ capacity.isPowerOfTwo ∨ ¬ (minCapacity ≤ capacity ∧ capacity ≤ 2 ^ 31) then
    .error (.invalidCapacity capacity)
  else .ok (empty capacity)

/-- `region`: the bytes at a physical index, if all of them are in the buffer. -/
def region (r : BytesRing) (start len : Nat) : Option Bytes :=
  if start + len ≤ r.buf.length then some (slice r.buf start len) else none

/-- A write through `region_mut`. -/
def regionMut (r : BytesRing) (start : Nat) (bytes : Bytes) : Option BytesRing :=
  if start + bytes.length ≤ r.buf.length then some { r with buf := splice r.buf start bytes }
  else none

/-! ## The producer -/

/-- Largest record this ring accepts. -/
def maxRecord (r : BytesRing) : Nat := r.capacity / 2 - ringHeader

/-- Bytes a record takes with its header and padding. -/
def recordSize (len : Nat) : Nat := ringHeader + padded len

/-- The physical index of the write position. -/
def writeIndex (r : BytesRing) : Nat := r.producer.tail % r.capacity

/-- Bytes skipped before the record, and the index it starts at: records never
straddle the end. -/
def placement (r : BytesRing) (len : Nat) : Nat × Nat :=
  let toEnd := r.capacity - r.writeIndex
  if recordSize len > toEnd then (toEnd, 0) else (0, r.writeIndex)

/-- Bytes a write needs, with what it skips. -/
def needed (r : BytesRing) (len : Nat) : Nat := (r.placement len).1 + recordSize len

/-- Whether the ring looks full, going by the cached head. -/
def looksFull (r : BytesRing) (len : Nat) : Bool :=
  decide (r.capacity - wrappingSub usizeModulus r.producer.tail r.producer.cachedHead < r.needed len)

def setProducerPc (r : BytesRing) (pc : ProducerPc) : BytesRing :=
  { r with producer := { r.producer with pc } }

/-- A write with room starts with the marker, if it skips, or with the payload. -/
def enterWrite (r : BytesRing) (call : WriteCall) : BytesRing :=
  if (r.placement call.len).1 > 0 then r.setProducerPc (.writeMarker call)
  else r.setProducerPc (.fillPayload call)

/-- Calls `write_with`. -/
def beginWrite (r : BytesRing) (call : WriteCall) : BytesRing × Option WriteOutcome :=
  if call.len > r.maxRecord then (r, some (.failed (.tooLarge call.len r.maxRecord)))
  else if r.looksFull call.len then (r.setProducerPc (.loadHead call), none)
  else (r.enterWrite call, none)

/-- Reads the shared head and looks again. -/
def loadHead (r : BytesRing) (call : WriteCall) : BytesRing × Option WriteOutcome :=
  let r := { r with producer := { r.producer with cachedHead := r.head } }
  if r.looksFull call.len then (r.setProducerPc .idle, some (.failed .full))
  else (r.enterWrite call, none)

/-- Marks the rest of the buffer as padding. -/
def writeMarker (r : BytesRing) (call : WriteCall) : BytesRing :=
  match r.regionMut r.writeIndex (toLe 4 wrapMarker) with
  | some r => r.setProducerPc (.fillPayload call)
  | none => r.setProducerPc .unreachable

/-- Lets `fill` write the payload in place. -/
def fillPayload (r : BytesRing) (call : WriteCall) : BytesRing :=
  let start := (r.placement call.len).2 + ringHeader
  match r.region start call.len with
  | some dst =>
      match r.regionMut start (call.fill dst) with
      | some r => r.setProducerPc (.writeHeader call (call.fill dst))
      | none => r.setProducerPc .unreachable
  | none => r.setProducerPc .unreachable

/-- Writes the length. -/
def writeHeader (r : BytesRing) (call : WriteCall) (record : Bytes) : BytesRing :=
  let header := if call.len < 2 ^ 32 then call.len else wrapMarker - 1
  match r.regionMut (r.placement call.len).2 (toLe 4 header) with
  | some r => r.setProducerPc (.storeTail call record)
  | none => r.setProducerPc .unreachable

/-- Publishes the record. -/
def storeTail (r : BytesRing) (call : WriteCall) : BytesRing :=
  let tail := (r.producer.tail + r.needed call.len) % usizeModulus
  { r with tail, producer := { r.producer with tail, pc := .idle } }

/-- The next access of the producer. -/
def stepProducer (r : BytesRing) : BytesRing × Option WriteOutcome :=
  match r.producer.pc with
  | .idle => (r, none)
  | .loadHead call => r.loadHead call
  | .writeMarker call => (r.writeMarker call, none)
  | .fillPayload call => (r.fillPayload call, none)
  | .writeHeader call record => (r.writeHeader call record, none)
  | .storeTail call record => (r.storeTail call, some (.written record))
  | .unreachable => (r, none)

/-- The region the producer writes in its next access, as start and length. -/
def nextWrite (r : BytesRing) : Option (Nat × Nat) :=
  match r.producer.pc with
  | .writeMarker _ => some (r.writeIndex, 4)
  | .fillPayload call => some ((r.placement call.len).2 + ringHeader, call.len)
  | .writeHeader call _ => some ((r.placement call.len).2, 4)
  | _ => none

/-! ## The consumer -/

def setConsumerPc (r : BytesRing) (pc : ConsumerPc) : BytesRing :=
  { r with consumer := { r.consumer with pc } }

/-- The physical index of the read position. -/
def readIndex (r : BytesRing) : Nat := r.consumer.head % r.capacity

/-- The top of the loop of `read_with`. -/
def enterRead (r : BytesRing) : BytesRing :=
  if r.consumer.head = r.consumer.cachedTail then r.setConsumerPc .loadTail
  else r.setConsumerPc .readHeader

/-- Reads the shared tail and looks again. -/
def loadTail (r : BytesRing) : BytesRing × Option ReadOutcome :=
  let r := { r with consumer := { r.consumer with cachedTail := r.tail } }
  if r.consumer.head = r.consumer.cachedTail then (r.setConsumerPc .idle, some none)
  else (r.setConsumerPc .readHeader, none)

/-- Reads the length at the read position. -/
def readHeader (r : BytesRing) : BytesRing :=
  match r.region r.readIndex 4 with
  | some header =>
      if ofLe header = wrapMarker then r.setConsumerPc .storeSkip
      else r.setConsumerPc (.readPayload (ofLe header))
  | none => r.setConsumerPc .unreachable

/-- Gives back the padding behind a marker and goes round the loop. -/
def storeSkip (r : BytesRing) : BytesRing :=
  let head := (r.consumer.head + (r.capacity - r.readIndex)) % usizeModulus
  ({ r with head, consumer := { r.consumer with head } } : BytesRing).enterRead

/-- Reads the payload. -/
def readPayload (r : BytesRing) (len : Nat) : BytesRing :=
  match r.region (r.readIndex + ringHeader) len with
  | some record => r.setConsumerPc (.storeHead len record)
  | none => r.setConsumerPc .unreachable

/-- Gives back the record. -/
def storeHead (r : BytesRing) (len : Nat) : BytesRing :=
  let head := (r.consumer.head + recordSize len) % usizeModulus
  { r with head, consumer := { r.consumer with head, pc := .idle } }

/-- The next access of the consumer. -/
def stepConsumer (r : BytesRing) : BytesRing × Option ReadOutcome :=
  match r.consumer.pc with
  | .idle => (r, none)
  | .loadTail => r.loadTail
  | .readHeader => (r.readHeader, none)
  | .storeSkip => (r.storeSkip, none)
  | .readPayload len => (r.readPayload len, none)
  | .storeHead len record => (r.storeHead len, some (some record))
  | .unreachable => (r, none)

end BytesRing

/-! ## Interleavings -/

/-- What happens next in an interleaving: a side that is idle calls its
operation, or a side takes its next access. -/
inductive RingAction where
  | write (call : WriteCall)
  | producer
  | read
  | consumer

/-- A ring and what its calls have done so far: the records written, the records
returned, and the accesses of the `read_with` call in progress. -/
structure RingRun where
  ring : BytesRing
  written : List Bytes
  returned : List Bytes
  readSteps : Nat

namespace RingRun

/-- A new ring. -/
def start (ring : BytesRing) : RingRun := ⟨ring, [], [], 0⟩

/-- Notes what a producer's step returned. -/
def afterWrite (s : RingRun) (res : BytesRing × Option WriteOutcome) : RingRun :=
  { s with ring := res.1, written := s.written ++ recordsWritten res.2 }

/-- Notes what a consumer's step returned. -/
def afterRead (s : RingRun) (res : BytesRing × Option ReadOutcome) : RingRun :=
  { s with
    ring := res.1
    returned := s.returned ++ recordsReturned res.2
    readSteps := if res.2.isSome then 0 else s.readSteps + 1 }

/-- One action. A call of a side that is not idle does not happen. -/
def step (s : RingRun) : RingAction → RingRun
  | .write call =>
      match s.ring.producer.pc with
      | .idle => s.afterWrite (s.ring.beginWrite call)
      | _ => s
  | .producer => s.afterWrite s.ring.stepProducer
  | .read =>
      match s.ring.consumer.pc with
      | .idle => { s with ring := s.ring.enterRead, readSteps := 0 }
      | _ => s
  | .consumer =>
      match s.ring.consumer.pc with
      | .idle => s
      | _ => s.afterRead s.ring.stepConsumer

end RingRun

end Bowst.Core
