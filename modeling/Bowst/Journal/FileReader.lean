/-
Bowst.Journal.FileReader — reading a journal of which some files cannot be read, and
reading on after an error (`bowst-journal/src/reader.rs`).

The reader keeps its list of files and the index of the next one, as the source does.
A file is read at most once, so whether it can be read is a part of the file.
-/
import Bowst.Journal.Reader

namespace Bowst.Journal

open Bowst.Lib
open Bowst.Core (Bytes)

/-- A file of a directory: its name, and what reading it gives. -/
structure SegmentFile where
  name : Bytes
  contents : Option Bytes
  deriving DecidableEq, Repr

/-- `ReadError` with its first case: a file could not be read. -/
inductive FileError where
  | io (name : Bytes)
  | read (error : ReadError)
  deriving DecidableEq, Repr

/-- `JournalReader` with its fields. -/
structure FileReader where
  files : List SegmentFile
  nextFile : Nat
  data : Bytes
  pos : Nat
  tornTail : Bool
  deriving DecidableEq, Repr

namespace FileReader

/-- The journal's segments among the entries of a directory, by index. -/
def segments (entries : List SegmentFile) : List (Nat × SegmentFile) :=
  (entries.filterMap fun file => (segmentIndex file.name).map fun index => (index, file)).mergeSort
    fun a b => a.1 ≤ b.1

/-- The check of neighbouring segments, which looks at no contents. -/
def checkSegments (segments : List (Nat × SegmentFile)) : Except ReadError Unit :=
  Journal.checkSegments (segments.map fun segment => (segment.1, ⟨segment.2.name, []⟩))

/-- Lists the journal's segments. -/
def openDir (entries : List SegmentFile) : Except ReadError FileReader := do
  checkSegments (segments entries)
  .ok ⟨(segments entries).map Prod.snd, 0, [], 0, false⟩

/-- The segment come to last. -/
def current (r : FileReader) : Option SegmentFile :=
  if r.nextFile = 0 then none else r.files[r.nextFile - 1]?

/-- The file at the index before the next one, which is the first one while there is none. -/
def currentName (r : FileReader) : Bytes :=
  (r.files[r.nextFile - 1]?.map SegmentFile.name).getD []

/-- Loads the next segment. `false` when there are no more. -/
def loadNext (r : FileReader) : Except FileError Bool × FileReader :=
  match r.files[r.nextFile]? with
  | none => (.ok false, r)
  | some file =>
      let r := { r with nextFile := r.nextFile + 1 }
      match file.contents with
      | none => (.error (.io file.name), r)
      | some data =>
          let r := { r with data }
          match decodeFileHeader data with
          | .error error => (.error (.read (.corrupt file.name error)), r)
          | .ok _ => (.ok true, { r with pos := fileHeaderLen })

/-- The loop that skips exhausted and empty segments. `false` when there are no more. -/
def skipSegments : Nat → FileReader → Except FileError Bool × FileReader
  | 0, r => (.ok false, r)
  | rounds + 1, r =>
      if r.pos < r.data.length then (.ok true, r)
      else
        match r.loadNext with
        | (.error error, r) => (.error error, r)
        | (.ok false, r) => (.ok false, r)
        | (.ok true, r) => skipSegments rounds r

section Next

variable (crc : Bytes → UInt32)

/-- The record at the reader's position. -/
def recordHere (r : FileReader) : Except FileError (Option Record) × FileReader :=
  match decodeRecord crc (getFrom r.data r.pos) r.pos with
  | .ok (.record header len) =>
      (.ok (some ⟨header, slice r.data (r.pos + recordHeaderLen) (len - recordHeaderLen)⟩),
        { r with pos := r.pos + len })
  | .ok .incomplete =>
      if r.nextFile < r.files.length then (.error (.read (.truncated r.currentName r.pos)), r)
      else (.ok none, { r with tornTail := true, pos := r.data.length })
  | .error error => (.error (.read (.corrupt r.currentName error)), r)

/-- The next record, or `none` at the end of the journal. Every round of the loop takes
a file. -/
def nextRecord (r : FileReader) : Except FileError (Option Record) × FileReader :=
  match skipSegments (r.files.length + 1) r with
  | (.error error, r) => (.error error, r)
  | (.ok false, r) => (.ok none, r)
  | (.ok true, r) => r.recordHere crc

/-- The reader after some calls, whatever they returned. -/
def after (r : FileReader) : Nat → FileReader
  | 0 => r
  | n + 1 => ((r.after n).nextRecord crc).2

/-- The record that call number `n` returns, if it returns one. -/
def returnedAt (r : FileReader) (n : Nat) : List Record :=
  match ((r.after crc n).nextRecord crc).1 with
  | .ok (some record) => [record]
  | _ => []

/-- The records that some calls return. -/
def returned (r : FileReader) : Nat → List Record
  | 0 => []
  | n + 1 => r.returned n ++ r.returnedAt crc n

end Next

end FileReader

/-! ## What a journal holds -/

section Decodable

variable (crc : Bytes → UInt32)

/-- The records that decode one after the other from a position on, and the first
position that does not. -/
def decodeRun (data : Bytes) : Nat → Nat → List Record × Nat
  | 0, pos => ([], pos)
  | rounds + 1, pos =>
      if pos < data.length then
        match decodeRecord crc (getFrom data pos) pos with
        | .ok (.record header len) =>
            let (records, stop) := decodeRun data rounds (pos + len)
            (⟨header, slice data (pos + recordHeaderLen) (len - recordHeaderLen)⟩ :: records, stop)
        | _ => ([], pos)
      else ([], pos)

/-- The records of a file from its header up to its first undecodable position, and
whether that is its end. A record has at least one byte. -/
def fileRecords : Option Bytes → List Record × Bool
  | none => ([], false)
  | some data =>
      match decodeFileHeader data with
      | .error _ => ([], false)
      | .ok _ =>
          let (records, stop) := decodeRun crc data data.length fileHeaderLen
          (records, decide (data.length ≤ stop))

/-- The records of segments, one file after the other, with nothing behind the first
that is damaged or cannot be read. -/
def intact : List SegmentFile → List Record
  | [] => []
  | file :: rest =>
      let (records, whole) := fileRecords crc file.contents
      if whole then records ++ intact rest else records

end Decodable

end Bowst.Journal
