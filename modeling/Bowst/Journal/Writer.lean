/-
Bowst.Journal.Writer — the writer thread's side of the journal: segment files and
the sink that fills them (`bowst-journal/src/journal.rs`).

A directory is the list of its files. The open segment's file is part of the sink
until the next segment is started; what the sink's buffered writer holds counts
as written. File operations succeed, except that a file is never created over
one that exists.
-/
import Bowst.Core.Text
import Bowst.Core.Units
import Bowst.Journal.Format

namespace Bowst.Journal

open Bowst.Lib
open Bowst.Core (Bytes natText parseUnsigned saturatingAdd)

/-- A file: its name and its bytes. -/
structure JournalFile where
  name : Bytes
  data : Bytes
  deriving DecidableEq, Repr

/-- The largest `u32`. -/
def u32Max : Nat := 2 ^ 32 - 1

/-- A number's text with zeros before it, up to `width` bytes. -/
def padded (width n : Nat) : Bytes :=
  List.replicate (width - (natText n).length) 48 ++ natText n

/-- Name of segment `index`. -/
def segmentName (index : Nat) : Bytes := ascii "journal-" ++ padded 8 index ++ ascii ".bjl"

/-- `strip_prefix`. -/
def stripStart (start text : Bytes) : Option Bytes :=
  if start <+: text then some (text.drop start.length) else none

/-- `strip_suffix`. -/
def stripEnd (ending text : Bytes) : Option Bytes :=
  if ending <:+ text then some (text.take (text.length - ending.length)) else none

/-- Parses a segment file name back into its index. -/
def segmentIndex (name : Bytes) : Option Nat := do
  if !validUtf8 name then none
  let rest ← stripStart (ascii "journal-") name
  let digits ← stripEnd (ascii ".bjl") rest
  parseUnsigned u32Max digits

/-- The index after the highest one present. -/
def nextSegmentIndex (dir : List JournalFile) : Nat :=
  match (dir.filterMap fun file => segmentIndex file.name).max? with
  | none => 0
  | some highest => min (highest + 1) u32Max

/-- Journal setup or write failure. -/
inductive JournalError where
  | exists (name : Bytes)
  deriving DecidableEq, Repr

/-- The open segment. -/
structure Segment where
  name : Bytes
  out : Bytes
  bytes : Nat
  deriving DecidableEq, Repr

/-- Starts segment `index` in a directory. -/
def Segment.create (dir : List JournalFile) (index : Nat) (created : UInt64) :
    Except JournalError Segment :=
  if dir.any fun file => file.name = segmentName index then .error (.exists (segmentName index))
  else .ok ⟨segmentName index, encodeFileHeader index created, fileHeaderLen⟩

/-- Counters of the writer: saturating integers. -/
structure JournalStats where
  records : Nat
  bytes : Nat
  segments : Nat
  lostAfterFailure : Nat
  deriving DecidableEq, Repr

/-- Everything the writer thread owns except the ring. -/
structure Sink where
  closed : List JournalFile
  segmentBytes : Nat
  segment : Segment
  index : Nat
  stats : JournalStats
  error : Option JournalError
  deriving DecidableEq, Repr

/-- `start` and `Writer::new`: the sink of a new run over a directory. -/
def Sink.start (dir : List JournalFile) (segmentBytes : Nat) (created : UInt64) :
    Except JournalError Sink := do
  let segment ← Segment.create dir (nextSegmentIndex dir) created
  .ok { closed := dir
        segmentBytes
        segment
        index := (segmentIndex segment.name).getD 0
        stats := ⟨0, 0, 1, 0⟩
        error := none }

namespace Sink

/-- The directory with the open segment's file. -/
def files (s : Sink) : List JournalFile := s.closed ++ [⟨s.segment.name, s.segment.out⟩]

/-- Starts the next segment. -/
def rotate (s : Sink) (created : UInt64) : Sink :=
  let next := min (s.index + 1) u32Max
  match Segment.create s.files next created with
  | .ok segment =>
      { s with closed := s.files, segment, index := next
               stats := { s.stats with segments := min (s.stats.segments + 1) u32Max } }
  | .error error => { s with error := s.error.or (some error) }

/-- A record that is not written. -/
def lose (s : Sink) : Sink :=
  { s with stats := { s.stats with
      lostAfterFailure := saturatingAdd s.stats.lostAfterFailure 1 } }

/-- The bytes written for a record, and its checksums on the way. -/
def emit (crc : Bytes → UInt32) (record : Bytes) : Bytes :=
  let recordCrc := recordChecksum crc record
  let headerCrc := headerChecksum crc record recordCrc
  getTo record crcAt ++ toLe 4 recordCrc.toNat ++ toLe 4 headerCrc.toNat ++
    getFrom record recordHeaderLen

/-- The end of `write`, once there is room. -/
def put (crc : Bytes → UInt32) (s : Sink) (record : Bytes) : Sink :=
  { s with
    segment := { s.segment with
      out := s.segment.out ++ emit crc record
      bytes := saturatingAdd s.segment.bytes record.length }
    stats := { s.stats with
      records := saturatingAdd s.stats.records 1
      bytes := saturatingAdd s.stats.bytes record.length } }

/-- Writes one record from the ring. `now` is the clock if a segment is started. -/
def write (crc : Bytes → UInt32) (s : Sink) (record : Bytes) (now : UInt64) : Sink :=
  if s.error.isSome then s.lose
  else
    let s := if s.segment.bytes ≥ s.segmentBytes then s.rotate now else s
    if s.error.isSome then s.lose else s.put crc record

end Sink

end Bowst.Journal
