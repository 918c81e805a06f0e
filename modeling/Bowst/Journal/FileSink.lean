/-
Bowst.Journal.FileSink — the writer thread when operations on files may fail
(`bowst-journal/src/journal.rs`).

`Bowst.Journal.Writer` has the sink whose operations succeed. This one writes through a
buffer, and what becomes of its operations on files is given in advance. The directory
is kept in three parts: the files of others, the segments of this run that are finished,
and the open one.
-/
import Bowst.Lib.BufferedFile
import Bowst.Journal.Producer
import Bowst.Journal.SegmentTheorems

namespace Bowst.Journal

open Bowst.Lib
open Bowst.Core (Bytes saturatingAdd)

/-- The file or directory involved in a failure. -/
inductive JournalPath where
  | dir
  | segment (name : Bytes)
  deriving DecidableEq, Repr

/-- `JournalError::Io`: what was being attempted, and where. -/
structure IoError where
  op : Bytes
  path : JournalPath
  deriving DecidableEq, Repr

/-- Whether the journal is complete. -/
inductive JournalHealth where
  | ok
  | degraded (dropped : Nat)
  | failed
  deriving DecidableEq, Repr

/-- What the producer, the handle and the writer thread share. -/
structure Shared where
  dropped : Nat
  failed : Bool
  deriving DecidableEq, Repr

/-- Current health. -/
def Shared.health (shared : Shared) : JournalHealth :=
  if shared.failed then .failed
  else
    match shared.dropped with
    | 0 => .ok
    | dropped + 1 => .degraded (dropped + 1)

/-- Capacity of a segment's buffer. -/
def outCapacity : Nat := 2 ^ 20

/-- The open segment, with what its buffer holds. -/
structure OpenSegment where
  name : Bytes
  out : Buffered UInt8
  bytes : Nat
  deriving DecidableEq, Repr

namespace OpenSegment

/-- `Segment::create`. The file is new: one that exists is never opened. -/
def create (dir : List JournalFile) (index : Nat) (created : UInt64) (faults : Faults) :
    Except IoError OpenSegment × Faults :=
  let name := segmentName index
  match faults.attemptIf !(dir.any fun file => file.name = name) with
  | (false, faults) => (.error ⟨ascii "create", .segment name⟩, faults)
  | (true, faults) =>
      match Buffered.write outCapacity ⟨[], []⟩ (encodeFileHeader index created) faults with
      | (false, _, faults) => (.error ⟨ascii "write header", .segment name⟩, faults)
      | (true, out, faults) => (.ok ⟨name, out, fileHeaderLen⟩, faults)

/-- The segment's file as it is on disk. -/
def file (segment : OpenSegment) : JournalFile := ⟨segment.name, segment.out.file⟩

end OpenSegment

/-- The counters with the number of drops, which the end of a run adds. -/
structure FinalStats extends JournalStats where
  dropped : Nat
  deriving DecidableEq, Repr

/-- Everything the writer thread owns except the ring, and the directory. -/
structure FileSink where
  others : List JournalFile
  closed : List JournalFile
  segmentBytes : Nat
  shared : Shared
  segment : OpenSegment
  index : Nat
  stats : JournalStats
  error : Option IoError
  faults : Faults
  deriving DecidableEq, Repr

/-- The four writes of a record: what is before its checksums, the checksums, and its
payload. -/
def recordParts (crc : Bytes → UInt32) (record : Bytes) : List Bytes :=
  let recordCrc := recordChecksum crc record
  let headerCrc := headerChecksum crc record recordCrc
  [getTo record crcAt, toLe 4 recordCrc.toNat, toLe 4 headerCrc.toNat, getFrom record recordHeaderLen]

namespace FileSink

/-- `start` and `Writer::new`: the directory is created and listed, then its first segment
is. `plan` is what becomes of the operations on files. -/
def start (dir : List JournalFile) (segmentBytes : Nat) (created : UInt64) (plan : List (Option Nat)) :
    Except IoError FileSink :=
  match (⟨plan, 0⟩ : Faults).attempt with
  | (false, _) => .error ⟨ascii "create directory", .dir⟩
  | (true, faults) =>
      match faults.attempt with
      | (false, _) => .error ⟨ascii "list", .dir⟩
      | (true, faults) =>
          match OpenSegment.create dir (nextSegmentIndex dir) created faults with
          | (.error error, _) => .error error
          | (.ok segment, faults) =>
              .ok { others := dir
                    closed := []
                    segmentBytes
                    shared := ⟨0, false⟩
                    segment
                    index := (segmentIndex segment.name).getD 0
                    stats := ⟨0, 0, 1, 0⟩
                    error := none
                    faults }

/-- The files of the run on disk, by index. -/
def disk (s : FileSink) : List JournalFile := s.closed ++ [s.segment.file]

/-- Keeps the first error. -/
def fail (s : FileSink) (error : IoError) : FileSink :=
  { s with shared := { s.shared with failed := true }, error := s.error.or (some error) }

/-- An operation on the open segment, unless there was an error. -/
def guard (s : FileSink) (op : Bytes) (action : FileSink → Bool × FileSink) : FileSink :=
  if s.error.isSome then s
  else
    match action s with
    | (true, s) => s
    | (false, s) => s.fail ⟨op, .segment s.segment.name⟩

/-- `out.flush()`. -/
def flushOut (s : FileSink) : Bool × FileSink :=
  let (ok, out, faults) := s.segment.out.flushBuf s.faults
  (ok, { s with segment := { s.segment with out }, faults })

/-- `Segment::sync`. -/
def sync (s : FileSink) : Bool × FileSink :=
  match s.flushOut with
  | (false, s) => (false, s)
  | (true, s) =>
      let (ok, faults) := s.faults.attempt
      (ok, { s with faults })

/-- The flush and the sync that are due from time to time. -/
def guardFlush (s : FileSink) : FileSink := s.guard (ascii "flush") flushOut

def guardSync (s : FileSink) : FileSink := s.guard (ascii "sync") sync

/-- What becomes of a segment that is dropped: a last flush, whose result is not looked at. -/
def dropOut (s : FileSink) : FileSink := s.flushOut.2

/-- Starts the next segment; the last one is synced and then dropped. -/
def rotate (s : FileSink) (created : UInt64) : FileSink :=
  let s := s.guardSync
  if s.error.isSome then s
  else
    let next := min (s.index + 1) u32Max
    match OpenSegment.create (s.others ++ s.disk) next created s.faults with
    | (.ok segment, faults) =>
        let s := { s with faults }.dropOut
        { s with closed := s.disk, segment, index := next
                 stats := { s.stats with segments := min (s.stats.segments + 1) u32Max } }
    | (.error error, faults) => { s with faults }.fail error

/-- A record that is not written. -/
def lose (s : FileSink) : FileSink :=
  { s with stats := { s.stats with
      lostAfterFailure := saturatingAdd s.stats.lostAfterFailure 1 } }

section Records

variable (crc : Bytes → UInt32)

/-- The end of `write`, once there is room. -/
def put (s : FileSink) (record : Bytes) : FileSink :=
  match Buffered.writeParts outCapacity (recordParts crc record) s.segment.out s.faults with
  | (true, out, faults) =>
      { s with
        segment := { s.segment with out, bytes := saturatingAdd s.segment.bytes record.length }
        stats := { s.stats with
          records := saturatingAdd s.stats.records 1
          bytes := saturatingAdd s.stats.bytes record.length }
        faults }
  | (false, out, faults) =>
      { s with segment := { s.segment with out }, faults }.fail
        ⟨ascii "write", .segment s.segment.name⟩

/-- Writes one record from the ring. `now` is the clock if a segment is started. -/
def write (s : FileSink) (record : Bytes) (now : UInt64) : FileSink :=
  if s.error.isSome then s.lose
  else if s.segment.bytes ≥ s.segmentBytes then
    let s := s.rotate now
    if s.error.isSome then s.lose else s.put crc record
  else s.put crc record

end Records

end FileSink

/-! ## Runs -/

/-- A record that the producer may append. -/
structure FittingRecord extends Record where
  fits : toRecord.Fits

/-- What can happen next: the writer takes a record from the ring, or its flush or sync is
due; or the producer drops a record. -/
inductive SinkAction where
  | write (record : FittingRecord) (now : UInt64)
  | flush
  | sync
  | dropped

/-- One round of the writer's loop: whether it was told to stop before, what the ring held,
how many records the producer dropped meanwhile, and which timers had run out. -/
structure WriterRound where
  stopping : Bool
  writes : List (FittingRecord × UInt64)
  drops : Nat
  flushDue : Bool
  syncDue : Bool

namespace FileSink

variable (crc : Bytes → UInt32)

/-- `drop_record`, for the shared counter. -/
def dropRecord (s : FileSink) : FileSink :=
  { s with shared := { s.shared with dropped := (s.shared.dropped + 1) % u64Modulus } }

def step (s : FileSink) : SinkAction → FileSink
  | .write record now => s.write crc (ringRecord record.header record.payload) now
  | .flush => s.guardFlush
  | .sync => s.guardSync
  | .dropped => s.dropRecord

/-- Actions one after the other. -/
def steps (s : FileSink) (actions : List SinkAction) : FileSink := actions.foldl (step crc) s

/-- One round of the loop of `Writer::run`. -/
def round (s : FileSink) (round : WriterRound) : FileSink :=
  let s := Nat.repeat dropRecord round.drops s
  let s := round.writes.foldl
    (fun s write => s.write crc (ringRecord write.1.header write.1.payload) write.2) s
  let s := if round.flushDue then s.guardFlush else s
  if round.syncDue then s.guardSync else s

/-- The loop of `Writer::run`, until it finds nothing to write after it was told to stop. -/
def loop (s : FileSink) : List WriterRound → FileSink
  | [] => s
  | round :: rest =>
      let s := s.round crc round
      if round.stopping && round.writes.isEmpty then s else loop s rest

/-- What `Writer::run` does behind its loop. -/
def close (s : FileSink) : FileSink := s.guardSync.dropOut

/-- What `Writer::run` returns. -/
def result (s : FileSink) : Except IoError FinalStats :=
  match s.error with
  | some error => .error error
  | none => .ok { s.stats with dropped := s.shared.dropped }

/-- `Writer::run`: what it returns, and the directory it leaves. -/
def run (s : FileSink) (rounds : List WriterRound) : Except IoError FinalStats × FileSink :=
  let s := (s.loop crc rounds).close
  (s.result, s)

end FileSink

end Bowst.Journal
