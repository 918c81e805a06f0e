/-
Bowst.Venue.WsReader — turning received bytes into WebSocket events
(`bowst-venue/src/ws/reader.rs`).

A reader carries that its unconsumed bytes are a range of its buffer, so
`copy_within` has one to move. No vector is longer than `isize::MAX`, so none of the
source's saturating additions of lengths and positions saturates, and a buffer that
`new` accepts is longer than `max_frame`.
-/
import Bowst.Venue.Frame

namespace Bowst.Venue

open Bowst.Lib
open Bowst.Core (Bytes)

/-- One event from the server, with the bytes that it borrows. -/
inductive WsEvent where
  | text (payload : Bytes)
  | binary (payload : Bytes)
  | ping (payload : Bytes)
  | pong (payload : Bytes)
  | close (code : Option Nat) (reason : Bytes)
  deriving DecidableEq, Repr

/-- Sizes for a reader. -/
structure ReaderConfig where
  buffer : Nat
  maxFrame : Nat
  maxMessage : Nat
  deriving DecidableEq, Repr

/-- Incremental WebSocket event reader. -/
structure WsReader where
  buf : Bytes
  start : Nat
  fin : Nat
  message : Bytes
  fragment : Option Opcode
  config : ReaderConfig
  ordered : start ≤ fin
  bounded : fin ≤ buf.length
  deriving Repr

/-- Largest server frame header. -/
def maxServerHeader : Nat := 10

/-- Where an event's payload lives. -/
inductive Span where
  | buf (start fin : Nat)
  | message
  deriving DecidableEq, Repr

/-- An event decided but not yet borrowed from the buffers. -/
inductive Ready where
  | data (opcode : Opcode) (span : Span)
  | ping (span : Span)
  | pong (span : Span)
  | close (code : Option Nat) (span : Span)
  deriving DecidableEq, Repr

namespace WsReader

/-- A reader that has received nothing. -/
def empty (config : ReaderConfig) : WsReader where
  buf := List.replicate config.buffer 0
  start := 0
  fin := 0
  message := []
  fragment := none
  config
  ordered := le_rfl
  bounded := Nat.zero_le _

/-- Allocates the reader's buffers. -/
def new (config : ReaderConfig) : Except WsError WsReader :=
  if config.maxFrame + maxServerHeader > config.buffer then .error .bufferTooSmall
  else .ok (empty config)

/-- `buf.get(start..end).unwrap_or_default()`. -/
def range (r : WsReader) (start fin : Nat) : Bytes :=
  if start ≤ fin ∧ fin ≤ r.buf.length then slice r.buf start (fin - start) else []

/-- The bytes received but not yet consumed. -/
def available (r : WsReader) : Bytes := r.range r.start r.fin

theorem available_eq (r : WsReader) : r.available = slice r.buf r.start (r.fin - r.start) :=
  if_pos ⟨r.ordered, r.bounded⟩

theorem length_available (r : WsReader) : r.available.length = r.fin - r.start := by
  have h := r.bounded
  rw [available_eq, length_slice (by have := r.ordered; omega)]

/-- `spare`: makes room in the buffer, and the free space is behind `fin`. -/
def spare (r : WsReader) : WsReader :=
  if r.start = r.fin then { r with start := 0, fin := 0, ordered := le_rfl, bounded := Nat.zero_le _ }
  else if r.start > 0 ∧ r.buf.length - r.fin < r.config.maxFrame then
    { r with
      buf := splice r.buf 0 r.available
      start := 0
      fin := r.fin - r.start
      ordered := Nat.zero_le _
      bounded := by
        have h := r.bounded
        rw [length_splice (by rw [length_available]; omega)]
        omega }
  else r

/-- The length of the slice that `spare` returned. -/
def free (r : WsReader) : Nat := r.buf.length - r.fin

/-- Bytes written to the start of the free space. -/
def write (r : WsReader) (bytes : Bytes) (h : bytes.length ≤ r.free) : WsReader :=
  { r with
    buf := splice r.buf r.fin bytes
    bounded := by
      have hb := r.bounded
      rw [free] at h
      rw [length_splice (by omega)]
      exact hb }

/-- Records that `n` bytes were written. -/
def commit (r : WsReader) (n : Nat) : WsReader :=
  { r with
    fin := min (r.fin + n) r.buf.length
    ordered := by have h := r.ordered; have hb := r.bounded; omega
    bounded := Nat.min_le_right .. }

def slice (r : WsReader) (span : Span) : Bytes :=
  match span with
  | .buf start fin => r.range start fin
  | .message => r.message

def event (r : WsReader) (ready : Ready) : WsEvent :=
  match ready with
  | .data .binary span => .binary (r.slice span)
  | .data _ span => .text (r.slice span)
  | .ping span => .ping (r.slice span)
  | .pong span => .pong (r.slice span)
  | .close code span => .close code (r.slice span)

def close (r : WsReader) (payload : Span) : Except WsError Ready :=
  match payload with
  | .message => .error .malformedClose
  | .buf start fin =>
      match r.slice payload with
      | [] => .ok (.close none payload)
      | [_] => .error .malformedClose
      | hi :: lo :: _ => .ok (.close (some (ofBe [hi, lo])) (.buf (start + 2) fin))

/-- Appends a fragment without ever growing past the preallocated limit. -/
def append (r : WsReader) (payload : Span) : Except WsError WsReader :=
  match payload with
  | .message => .error .unexpectedFragment
  | .buf start fin =>
      let limit := r.config.maxMessage
      if r.message.length + (fin - start) > limit then .error (.messageTooLarge limit)
      else .ok { r with message := r.message ++ r.range start fin }

/-- Updates fragment state for one frame and decides which event, if any, it
completes. -/
def onFrame (r : WsReader) (header : FrameHeader) (payload : Span) :
    Except WsError (Option Ready × WsReader) :=
  match header.opcode with
  | .ping => .ok (some (.ping payload), r)
  | .pong => .ok (some (.pong payload), r)
  | .close => do
      let ready ← r.close payload
      .ok (some ready, r)
  | .text | .binary =>
      if r.fragment.isSome then .error .unexpectedFragment
      else if header.fin then .ok (some (.data header.opcode payload), r)
      else do
        let r ← ({ r with fragment := some header.opcode, message := [] } : WsReader).append payload
        .ok (none, r)
  | .continuation =>
      match r.fragment with
      | none => .error .unexpectedFragment
      | some opcode => do
          let r ← r.append payload
          if !header.fin then .ok (none, r)
          else .ok (some (.data opcode .message), { r with fragment := none })

/-- The start moved behind a complete frame. -/
def consume (r : WsReader) (frameLen : Nat) (h : ¬ r.available.length < frameLen) : WsReader :=
  { r with
    start := r.start + frameLen
    ordered := by
      have ho := r.ordered
      rw [length_available] at h
      omega }

/-- The loop of `next_event`: `none` if more bytes are needed. -/
def nextReady : Nat → WsReader → Except WsError (Option Ready × WsReader)
  | 0, r => .ok (none, r)
  | rounds + 1, r => do
      match ← parseServerHeader r.available r.config.maxFrame with
      | none => .ok (none, r)
      | some header =>
          let frameLen := header.headerLen + header.payloadLen
          if h : r.available.length < frameLen then .ok (none, r)
          else
            let payload := Span.buf (r.start + header.headerLen) (r.start + frameLen)
            match ← (r.consume frameLen h).onFrame header payload with
            | (some ready, r) => .ok (some ready, r)
            -- Data fragments with more to come produce no event: keep reading.
            | (none, r) => nextReady rounds r

/-- The next complete event. A frame has at least two bytes. -/
def nextEvent (r : WsReader) : Except WsError (Option WsEvent × WsReader) := do
  let (ready, r) ← r.nextReady (r.available.length + 1)
  .ok (ready.map r.event, r)

/-- What `on_frame` leaves behind when it fails: the message of a first fragment that
does not fit is begun, and empty. -/
def failedFrame (r : WsReader) (header : FrameHeader) : WsReader :=
  match header.opcode with
  | .text | .binary =>
      if r.fragment.isSome then r
      else { r with fragment := some header.opcode, message := [] }
  | _ => r

/-- `nextReady` with the reader that it leaves behind, on an error too. -/
def pollReady : Nat → WsReader → Except WsError (Option Ready) × WsReader
  | 0, r => (.ok none, r)
  | rounds + 1, r =>
      match parseServerHeader r.available r.config.maxFrame with
      | .error err => (.error err, r)
      | .ok none => (.ok none, r)
      | .ok (some header) =>
          let frameLen := header.headerLen + header.payloadLen
          if h : r.available.length < frameLen then (.ok none, r)
          else
            let payload := Span.buf (r.start + header.headerLen) (r.start + frameLen)
            match (r.consume frameLen h).onFrame header payload with
            | .error err => (.error err, (r.consume frameLen h).failedFrame header)
            | .ok (some ready, r) => (.ok (some ready), r)
            | .ok (none, r) => pollReady rounds r

/-- `nextEvent` with the reader that it leaves behind, on an error too. -/
def poll (r : WsReader) : Except WsError (Option WsEvent) × WsReader :=
  let (found, r) := r.pollReady (r.available.length + 1)
  (found.map (Option.map r.event), r)

/-- Clears all state, for reuse on a new connection. -/
def reset (r : WsReader) : WsReader :=
  { r with
    start := 0
    fin := 0
    message := []
    fragment := none
    ordered := le_rfl
    bounded := Nat.zero_le _ }

/-- `next_event` until there is none: the events, and the error that ended them. -/
def drain : Nat → WsReader → List WsEvent × Except WsError WsReader
  | 0, r => ([], .ok r)
  | rounds + 1, r =>
      match r.nextEvent with
      | .error err => ([], .error err)
      | .ok (none, r) => ([], .ok r)
      | .ok (some event, r) =>
          let (events, out) := drain rounds r
          (event :: events, out)

/-- A stream that arrives in chunks: each is written into `spare`, committed and
drained, until one ends in an error. `none` if a chunk does not fit. -/
def run (r : WsReader) : List Bytes → Option (List WsEvent × Option WsError)
  | [] => some ([], none)
  | chunk :: chunks =>
      let r := r.spare
      if h : chunk.length ≤ r.free then
        let r := (r.write chunk h).commit chunk.length
        match r.drain (r.available.length + 1) with
        | (events, .error err) => some (events, some err)
        | (events, .ok r) => (r.run chunks).map fun (more, err) => (events ++ more, err)
      else none

end WsReader

end Bowst.Venue
