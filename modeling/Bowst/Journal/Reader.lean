/-
Bowst.Journal.Reader — reading a journal back (`bowst-journal/src/reader.rs`).

The reader's list of files and its index of the next one are kept as the files
already loaded and the files still to load. Listing and reading files succeeds.
-/
import Bowst.Journal.Writer

namespace Bowst.Journal

open Bowst.Lib
open Bowst.Core (Bytes)

/-- One record read from a journal. -/
structure Record where
  header : RecordHeader
  payload : Bytes
  deriving DecidableEq, Repr

/-- A journal that cannot be read. -/
inductive ReadError where
  | corrupt (name : Bytes) (error : FormatError)
  | truncated (name : Bytes) (offset : Nat)
  | missingSegment (expected found : Nat)
  deriving DecidableEq, Repr

/-- Reads every record of a journal directory in order. -/
structure JournalReader where
  loaded : List JournalFile
  rest : List JournalFile
  data : Bytes
  pos : Nat
  tornTail : Bool
  deriving DecidableEq, Repr

/-- The check of neighbouring segments. -/
def checkSegments : List (Nat × JournalFile) → Except ReadError Unit
  | a :: b :: rest =>
      if min (a.1 + 1) u32Max ≠ b.1 then .error (.missingSegment (min (a.1 + 1) u32Max) b.1)
      else checkSegments (b :: rest)
  | _ => .ok ()

namespace JournalReader

/-- The journal's segments among the entries of a directory, by index. -/
def segments (entries : List JournalFile) : List (Nat × JournalFile) :=
  (entries.filterMap fun file => (segmentIndex file.name).map fun index => (index, file)).mergeSort
    fun a b => a.1 ≤ b.1

/-- Lists the journal's segments. -/
def openDir (entries : List JournalFile) : Except ReadError JournalReader := do
  checkSegments (segments entries)
  .ok ⟨[], (segments entries).map Prod.snd, [], 0, false⟩

/-- The file loaded last. -/
def currentName (r : JournalReader) : Bytes := (r.loaded.getLast?.map JournalFile.name).getD []

/-- Loads `file`, the next segment. -/
def load (r : JournalReader) (file : JournalFile) (rest : List JournalFile) :
    Except ReadError Unit × JournalReader :=
  let r := { r with loaded := r.loaded ++ [file], rest, data := file.data }
  match decodeFileHeader file.data with
  | .error error => (.error (.corrupt file.name error), r)
  | .ok _ => (.ok (), { r with pos := fileHeaderLen })

/-- The loop that skips exhausted and empty segments, over the files still to
load. `false` when there are no more. -/
def skipSegments (r : JournalReader) : List JournalFile → Except ReadError Bool × JournalReader
  | [] => (.ok (decide (r.pos < r.data.length)), r)
  | file :: rest =>
      if r.pos < r.data.length then (.ok true, r)
      else
        match r.load file rest with
        | (.error error, r) => (.error error, r)
        | (.ok (), r) => r.skipSegments rest

section Next

variable (crc : Bytes → UInt32)

/-- The record at the reader's position. -/
def recordHere (r : JournalReader) : Except ReadError (Option Record) × JournalReader :=
  match decodeRecord crc (getFrom r.data r.pos) r.pos with
  | .ok (.record header len) =>
      (.ok (some ⟨header, slice r.data (r.pos + recordHeaderLen) (len - recordHeaderLen)⟩),
        { r with pos := r.pos + len })
  | .ok .incomplete =>
      if r.rest ≠ [] then (.error (.truncated r.currentName r.pos), r)
      else (.ok none, { r with tornTail := true, pos := r.data.length })
  | .error error => (.error (.corrupt r.currentName error), r)

/-- The next record, or `none` at the end of the journal. -/
def nextRecord (r : JournalReader) : Except ReadError (Option Record) × JournalReader :=
  match r.skipSegments r.rest with
  | (.error error, r) => (.error error, r)
  | (.ok false, r) => (.ok none, r)
  | (.ok true, r) => r.recordHere crc

end Next

end JournalReader

end Bowst.Journal
