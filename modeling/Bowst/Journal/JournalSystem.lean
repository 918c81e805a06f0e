/-
Bowst.Journal.JournalSystem — the journal as a whole: the producer, the writer thread
and the handle (`start`, `Writer::run` and `JournalHandle::finish` of
`bowst-journal/src/journal.rs`).

The producer and the writer thread share the ring, one access at a time, the count of
drops and the flags. What the sink does with a record touches none of them but the flag
of failure, so it happens in the step that gives the record's bytes back to the ring.
-/
import Bowst.Journal.FileSink

namespace Bowst.Journal

open Bowst.Core (Bytes BytesRing)

/-- Where the writer thread is in the loop of `Writer::run`. -/
inductive WriterPc where
  | top
  | draining (stopping wroteAny : Bool)
  | done (result : Except IoError FinalStats)
  deriving DecidableEq

/-- What a step of the writer thread finds: the clock, if a segment is started, and the
timers that have run out, if it gets to them. -/
structure WriterMoment where
  now : UInt64
  flushDue : Bool
  syncDue : Bool

/-- Both threads, and the flag that the handle sets. -/
structure JournalSystem where
  producer : JournalProducer
  sink : FileSink
  stop : Bool
  pc : WriterPc

/-- What can happen next: the hot path calls `append`, the handle `finish`, or one of the
threads takes its next step. -/
inductive JournalEvent where
  | append (call : AppendCall)
  | producer
  | finish
  | writer (moment : WriterMoment)

namespace JournalSystem

/-- What `start` starts. -/
def start (ring : BytesRing) (sink : FileSink) : JournalSystem := ⟨.start ring, sink, false, .top⟩

/-- The count of drops is one for both threads. -/
def shareDrops (sys : JournalSystem) : JournalSystem :=
  { sys with sink := { sys.sink with
      shared := { sys.sink.shared with dropped := sys.producer.dropped } } }

/-- The loop of `run`, from where the ring was found empty. -/
def endDrain (sys : JournalSystem) (moment : WriterMoment) (stopping wroteAny : Bool) :
    JournalSystem :=
  let sink := if moment.flushDue then sys.sink.guardFlush else sys.sink
  let sink := if moment.syncDue then sink.guardSync else sink
  if stopping && !wroteAny then
    { sys with sink := sink.close, pc := .done sink.close.result }
  else { sys with sink, pc := .top }

variable (crc : Bytes → UInt32)

/-- An access of `read_with`. -/
def drain (sys : JournalSystem) (moment : WriterMoment) (stopping wroteAny : Bool) : JournalSystem :=
  let next := { sys with producer := sys.producer.step .consumer }
  match sys.producer.run.ring.stepConsumer.2 with
  | none => next
  | some (some record) =>
      { next with sink := sys.sink.write crc record moment.now, pc := .draining stopping true }
  | some none => next.endDrain moment stopping wroteAny

/-- The writer thread's next step. -/
def stepWriter (sys : JournalSystem) (moment : WriterMoment) : JournalSystem :=
  match sys.pc with
  | .top => { sys with pc := .draining sys.stop false }
  | .draining stopping wroteAny =>
      match sys.producer.run.ring.consumer.pc with
      | .idle => { sys with producer := sys.producer.step .read }
      | _ => sys.drain crc moment stopping wroteAny
  | .done _ => sys

def step (sys : JournalSystem) : JournalEvent → JournalSystem
  | .append call => { sys with producer := sys.producer.step (.append call) }.shareDrops
  | .producer => { sys with producer := sys.producer.step .producer }.shareDrops
  | .finish => { sys with stop := true }
  | .writer moment => sys.stepWriter crc moment

/-- Events one after the other. -/
def steps (sys : JournalSystem) (events : List JournalEvent) : JournalSystem :=
  events.foldl (step crc) sys

end JournalSystem

/-- A record read back from a file, or the lost ones that a gap record stands for. -/
def expandRecord (record : Record) : List (Option Bytes) :=
  expand (ringRecord record.header record.payload)

end Bowst.Journal
