/-
Bowst.Venue.Replay — replaying a journaled session
(`bowst-venue/src/binance/replay.rs`): the description at its start, and the
book logic fed from the records.

A description is the bytes of its text. The journal is the records its reader
yields, and how reading ends.
-/
import Bowst.Core.Text
import Bowst.Journal.Reader
import Bowst.Venue.Books

namespace Bowst.Venue

open Bowst.Lib Bowst.Core Bowst.L2 Bowst.Journal

/-! ## Descriptions -/

/-- First line of a session description, with its format version. -/
def headerLine : Bytes := ascii "bowst binance-md session v1"

/-- Sizing that changes how books behave. -/
structure BookSizing where
  sync : SyncConfig
  maxLevelsPerMessage : Nat
  snapshotLimit : Nat
  deriving DecidableEq, Repr

/-- Fields with a space between them. -/
def spaced (fields : List Bytes) : Bytes := [32].intercalate fields

def sizingLine (sizing : BookSizing) : Bytes :=
  spaced [ascii "sizing", natText sizing.sync.levelsPerSide, natText sizing.sync.bufferedMessages,
    natText sizing.sync.bufferedUpdates, natText sizing.maxLevelsPerMessage,
    natText sizing.snapshotLimit]

def instrumentLine (i : Instrument) : Bytes :=
  spaced [ascii "instrument", natText i.id.index, i.symbol.text, i.tick.text, i.lot.text,
    i.minNotional.text]

/-- Text written as the payload of the session-start record. -/
def describe (sizing : BookSizing) (instruments : InstrumentTable) : Bytes :=
  unlines (headerLine :: sizingLine sizing :: instruments.instruments.map instrumentLine)

/-- Why a journal could not be replayed. -/
inductive ReplayError where
  | read (err : ReadError)
  | noSession
  | badSession (line : Bytes)
  | badSnapshot
  | invalidSizing
  deriving DecidableEq, Repr

/-- The bytes of the first `n` characters. A continuation byte belongs to the
character before it. -/
def firstChars : Nat → Bytes → Bytes
  | _, [] => []
  | n, byte :: rest =>
      if 0x80 ≤ byte ∧ byte ≤ 0xBF then byte :: firstChars n rest
      else
        match n with
        | 0 => []
        | n + 1 => byte :: firstChars n rest

/-- The error that names a line. -/
def badLine (line : Bytes) : ReplayError := .badSession (firstChars 80 line)

/-- `parse` of a `usize`. -/
def parseUsize (text : Bytes) : Option Nat := parseUnsigned u64Max text

/-- `parse` of a `u32`. -/
def parseU32 (text : Bytes) : Option Nat := parseUnsigned (2 ^ 32 - 1) text

/-- The fields of a sizing line. -/
def parseSizing (levels messages updates perMessage limit : Bytes) : Option BookSizing := do
  let levelsPerSide ← parseUsize levels
  let bufferedMessages ← parseUsize messages
  let bufferedUpdates ← parseUsize updates
  let maxLevelsPerMessage ← parseUsize perMessage
  let snapshotLimit ← parseU32 limit
  some ⟨⟨levelsPerSide, bufferedMessages, bufferedUpdates⟩, maxLevelsPerMessage, snapshotLimit⟩

/-- The fields of an instrument line. -/
def parseInstrument (id symbol tick lot minNotional : Bytes) : Option Instrument := do
  let id ← parseU32 id
  let symbol ← Symbol.new symbol
  let tick ← (Increment.parse tick).toOption
  let lot ← (Increment.parse lot).toOption
  let minNotional ← (Dec.parseBytes minNotional).toOption
  some ⟨⟨UInt32.ofNat id⟩, .binance, symbol, tick, lot, minNotional⟩

/-- One line of a description after the first. Whatever is wrong with a line, the
error names the line. -/
def parseLine (sizing : Option BookSizing) (instruments : List Instrument) (line : Bytes) :
    Option (Option BookSizing × List Instrument) :=
  match line.splitOn 32 with
  | [kind, a, b, c, d, e] =>
      if kind = ascii "sizing" then
        (parseSizing a b c d e).map fun sizing => (some sizing, instruments)
      else if kind = ascii "instrument" then
        (parseInstrument a b c d e).map fun instrument => (sizing, instruments ++ [instrument])
      else none
  | [[]] => some (sizing, instruments)
  | _ => none

/-- The loop of `parse_description`. -/
def parseLines (sizing : Option BookSizing) (instruments : List Instrument) :
    List Bytes → Except ReplayError (Option BookSizing × List Instrument)
  | [] => .ok (sizing, instruments)
  | line :: rest =>
      match parseLine sizing instruments line with
      | some (sizing, instruments) => parseLines sizing instruments rest
      | none => .error (badLine line)

/-- Parses a session description. -/
def parseDescription (text : Bytes) : Except ReplayError (BookSizing × InstrumentTable) :=
  if (lines text).head? ≠ some headerLine then .error (badLine ((lines text).head?.getD []))
  else do
    let (sizing, instruments) ← parseLines none [] (lines text).tail
    match sizing with
    | none => .error (badLine (ascii "missing sizing line"))
    | some sizing =>
        match InstrumentTable.new instruments with
        | .ok table => .ok (sizing, table)
        | .error _ => .error (badLine (ascii "invalid instrument list"))

/-! ## Replay -/

/-- What a replay went through: saturating `u64`s. -/
structure ReplayReport where
  sessions : Nat
  messages : Nat
  snapshots : Nat
  verifications : Nat
  resets : Nat
  dropped : Nat
  tornTail : Bool
  deriving DecidableEq, Repr

def ReplayReport.zero : ReplayReport := ⟨0, 0, 0, 0, 0, 0, false⟩

/-- A replay between two records: the books of the session, the report, and the
calls of the handler made so far. -/
structure Replaying where
  books : Option MdBooks
  report : ReplayReport
  handler : List HandlerCall
  deriving DecidableEq, Repr

def Replaying.start : Replaying := ⟨none, .zero, []⟩

/-- The instrument ID at the front of a payload, and what follows. -/
def splitId (payload : Bytes) : Option (InstrumentId × Bytes) :=
  if payload.length < 4 then none
  else some (⟨UInt32.ofNat (ofLe (payload.take 4))⟩, payload.drop 4)

/-- The count in a gap record. -/
def gapCount (payload : Bytes) : Nat := if payload.length < 8 then 0 else ofLe (payload.take 8)

namespace Replaying

/-- The books, once a session has started. -/
def session (st : Replaying) : Except ReplayError MdBooks :=
  match st.books with
  | some books => .ok books
  | none => .error .noSession

/-- The state after a call that left `books` and made `calls`. -/
def after (st : Replaying) (books : MdBooks) (calls : List HandlerCall) : Replaying :=
  { st with books := some books, handler := st.handler ++ calls }

def countSession (st : Replaying) : Replaying :=
  { st with report := { st.report with sessions := saturatingAdd st.report.sessions 1 } }

def countMessage (st : Replaying) : Replaying :=
  { st with report := { st.report with messages := saturatingAdd st.report.messages 1 } }

def countSnapshot (st : Replaying) : Replaying :=
  { st with report := { st.report with snapshots := saturatingAdd st.report.snapshots 1 } }

def countVerification (st : Replaying) : Replaying :=
  { st with report := { st.report with
      verifications := saturatingAdd st.report.verifications 1 } }

def countReset (st : Replaying) : Replaying :=
  { st with report := { st.report with resets := saturatingAdd st.report.resets 1 } }

def countDropped (st : Replaying) (count : Nat) : Replaying :=
  { st with report := { st.report with dropped := saturatingAdd st.report.dropped count } }

/-- A session-start record. -/
def startSession (st : Replaying) (payload : Bytes) : Except ReplayError Replaying :=
  if !validUtf8 payload then .error (.badSession (ascii "not UTF-8"))
  else do
    let (sizing, instruments) ← parseDescription payload
    match MdBooks.new instruments sizing.sync sizing.maxLevelsPerMessage sizing.snapshotLimit with
    | none => .error .invalidSizing
    | some books => .ok ({ st with books := some books } : Replaying).countSession

/-- A snapshot or verification record: `act` is what the books do with it. -/
def withId (st : Replaying) (payload : Bytes)
    (act : MdBooks → InstrumentId → Bytes → MdBooks × List HandlerCall) :
    Except ReplayError Replaying := do
  let books ← st.session
  match splitId payload with
  | none => .error .badSnapshot
  | some (instrument, body) =>
      let (books, calls) := act books instrument body
      .ok (st.after books calls)

/-- The loop body of `replay`. -/
def record (st : Replaying) (record : Record) : Except ReplayError Replaying :=
  let kind := record.header.kind
  let payload := record.payload
  if kind = .sessionStart then st.startSession payload
  else if kind = .mdMessage then do
    let books ← st.session
    -- An undecodable message made the live session drop the connection; the
    -- following reset record replays that.
    let (_, books, calls) := books.onMessage payload
    .ok (st.after books calls).countMessage
  else if kind = .mdSnapshot then do
    let st ← st.withId payload fun books instrument body =>
      (books.onRawSnapshot instrument body ⟨record.header.wall⟩).2
    .ok st.countSnapshot
  else if kind = .mdVerifyStart then
    st.withId payload fun books instrument _ => ((books.startVerification instrument).2, [])
  else if kind = .mdVerifySnapshot then do
    let st ← st.withId payload fun books instrument body =>
      (books.onRawVerificationSnapshot instrument body).2
    .ok st.countVerification
  else if kind = .mdReset then do
    let books ← st.session
    .ok (st.after books.resetAll []).countReset
  else if kind = .gap then .ok (st.countDropped (gapCount payload))
  else .ok st

/-- The loop of `replay`. It ends at the first error, with the calls made until
then. -/
def run (st : Replaying) : List Record → Except ReplayError Unit × Replaying
  | [] => (.ok (), st)
  | record :: rest =>
      match st.record record with
      | .error err => (.error err, st)
      | .ok st => st.run rest

end Replaying

/-- Replays every session in a journal: the records read, and whether a torn
record or an error ended the reading. Returns also the calls of the handler. -/
def replay (records : List Record) (ending : Except ReadError Bool) :
    Except ReplayError ReplayReport × List HandlerCall :=
  match Replaying.start.run records with
  | (.error err, st) => (.error err, st.handler)
  | (.ok (), st) =>
      match ending with
      | .error err => (.error (.read err), st.handler)
      | .ok tornTail => (.ok { st.report with tornTail }, st.handler)

end Bowst.Venue
