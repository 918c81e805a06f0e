/-
Bowst.Journal.Producer — the hot-path side of the journal
(`JournalProducer` of `bowst-journal/src/journal.rs`).

`append` writes one record into the byte ring, after a gap record if records were
dropped before. Its calls of `write_with` interleave with the writer thread that
drains the ring, one access to shared memory at a time
(`Bowst.Core.BytesRing`); what `append` computes between two accesses happens in
the step before.
-/
import Bowst.Core.BytesRing
import Bowst.Journal.Format

namespace Bowst.Journal

open Bowst.Lib
open Bowst.Core (Bytes RingRun WriteCall WriteOutcome RingAction)

/-- The number of values of a `u64`. Irreducible, so that no proof counts to it. -/
@[irreducible] def u64Modulus : Nat := 2 ^ 64

/-- The loop that copies the parts into the body, one after the other.
`split_at_mut` has nothing to do with a part longer than what is left. -/
def copyParts : List Bytes → Bytes → Bytes
  | [], body => body
  | part :: rest, body =>
      if part.length ≤ body.length then part ++ copyParts rest (body.drop part.length) else body

/-- Bytes of a payload in parts. -/
def payloadLen (parts : List Bytes) : Nat := (parts.map List.length).sum

theorem length_copyParts : ∀ (parts : List Bytes) (body : Bytes),
    (copyParts parts body).length = body.length := by
  intro parts
  induction parts with
  | nil => intro body; rfl
  | cons part rest ih =>
      intro body
      rw [copyParts]
      split_ifs with hfits
      · rw [List.length_append, ih, List.length_drop]
        omega
      · rfl

/-- The write of a record: the header, then the parts. -/
def recordWrite (header : RecordHeader) (parts : List Bytes) : WriteCall where
  len := recordHeaderLen + payloadLen parts
  fill dst :=
    encodeRecordHeader header (payloadLen parts) (dst.take recordHeaderLen) ++
      copyParts parts (dst.drop recordHeaderLen)
  length_fill dst := by
    rw [List.length_append, encodeRecordHeader, length_putFields, length_copyParts,
      ← List.length_append, List.take_append_drop]

/-- The arguments of `append`. -/
structure AppendCall where
  header : RecordHeader
  parts : List Bytes
  deriving DecidableEq, Repr

/-- Where the producer is in `append`: in the `write_with` of the gap record, or
in that of the record itself. -/
inductive AppendPc where
  | idle
  | gap (call : AppendCall)
  | record (call : AppendCall)
  deriving DecidableEq, Repr

/-- The producer with its ring, the shared count of drops, and what the calls of
`append` have returned so far. -/
structure JournalProducer where
  run : RingRun
  pendingGap : Nat
  dropped : Nat
  pc : AppendPc
  appended : List (AppendCall × Bool)

/-- What can happen next: an idle producer calls `append`, or one of the threads
takes its next access of the ring. -/
inductive JournalAction where
  | append (call : AppendCall)
  | producer
  | read
  | consumer

namespace JournalProducer

/-- `start`, for the producer. -/
def start (ring : Bowst.Core.BytesRing) : JournalProducer := ⟨.start ring, 0, 0, .idle, []⟩

/-- Ends the call: `drop_record` counts the record and returns `false`. -/
def dropRecord (j : JournalProducer) (call : AppendCall) : JournalProducer :=
  { j with
    pendingGap := min (j.pendingGap + 1) (u64Modulus - 1)
    dropped := (j.dropped + 1) % u64Modulus
    pc := .idle
    appended := j.appended ++ [(call, false)] }

/-- Begins a `write_with` and goes on at `next` if that returns at once. -/
def write (j : JournalProducer) (write : WriteCall) (pc : AppendPc)
    (next : JournalProducer → WriteOutcome → JournalProducer) : JournalProducer :=
  let res := j.run.ring.beginWrite write
  let j := { j with run := j.run.afterWrite res, pc }
  match res.2 with
  | none => j
  | some out => next j out

/-- The end of `append`, when its record was written or not. -/
def endRecord (j : JournalProducer) (call : AppendCall) : WriteOutcome → JournalProducer
  | .written _ => { j with pc := .idle, appended := j.appended ++ [(call, true)] }
  | .failed _ => j.dropRecord call

def writeRecord (j : JournalProducer) (call : AppendCall) : JournalProducer :=
  j.write (recordWrite call.header call.parts) (.record call) (fun j out => j.endRecord call out)

/-- The end of `write_gap`. -/
def endGap (j : JournalProducer) (call : AppendCall) : WriteOutcome → JournalProducer
  | .written _ => { j with pendingGap := 0 }.writeRecord call
  | .failed _ => j.dropRecord call

/-- The gap record: its payload is the count. -/
def gapWrite (header : RecordHeader) (count : Nat) : WriteCall :=
  recordWrite { header with kind := Kind.gap } [toLe 8 count]

def writeGap (j : JournalProducer) (call : AppendCall) : JournalProducer :=
  j.write (gapWrite call.header j.pendingGap) (.gap call) (fun j out => j.endGap call out)

/-- Whether a record can ever fit. -/
def canFit (j : JournalProducer) (call : AppendCall) : Bool :=
  let len := payloadLen call.parts
  let total := recordHeaderLen + len
  decide (len < 2 ^ 32 ∧ len ≤ maxPayload ∧ total ≤ j.run.ring.maxRecord)

/-- Calls `append`. -/
def append (j : JournalProducer) (call : AppendCall) : JournalProducer :=
  if !j.canFit call then j.dropRecord call
  else if j.pendingGap > 0 then j.writeGap call
  else j.writeRecord call

/-- The producer's next access of the ring, after which its call goes on. -/
def stepProducer (j : JournalProducer) : JournalProducer :=
  let res := j.run.ring.stepProducer
  let next := { j with run := j.run.afterWrite res }
  match res.2, j.pc with
  | some out, .gap call => next.endGap call out
  | some out, .record call => next.endRecord call out
  | _, _ => next

def step (j : JournalProducer) : JournalAction → JournalProducer
  | .append call =>
      match j.pc with
      | .idle => j.append call
      | _ => j
  | .producer => j.stepProducer
  | .read => { j with run := j.run.step .read }
  | .consumer => { j with run := j.run.step .consumer }

end JournalProducer

/-- A record of the journal, read back: a gap record stands for that many lost
records. -/
def expand (record : Bytes) : List (Option Bytes) :=
  if uintAt 2 record 0 = Kind.gap.code.toNat then
    List.replicate (uintAt 8 record recordHeaderLen) none
  else [some record]

/-- A record as `append` encodes it: header and concatenated parts. -/
def encodeRecord (header : RecordHeader) (parts : List Bytes) : Bytes :=
  headerBytes header (payloadLen parts) ++ parts.flatten

/-- A finished call of `append` in the journal: its record, or a lost one. -/
def outcome (call : AppendCall × Bool) : Option Bytes :=
  if call.2 then some (encodeRecord call.1.header call.1.parts) else none

end Bowst.Journal
