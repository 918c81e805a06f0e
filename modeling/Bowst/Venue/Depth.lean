/-
Bowst.Venue.Depth — decoding depth updates and depth snapshots
(`bowst-venue/src/levels.rs`, `bowst-venue/src/binance/depth.rs`, and
`DecodeError` of `bowst-venue/src/lib.rs`).

The decoders' buffers are cleared at the start of each message, so decoding is a
function of the message. Side arrays seen before the symbol are kept as the rest
of the message from there on and read again with a new reader.
-/
import Bowst.Core.Instrument
import Bowst.L2.Sync
import Bowst.Venue.Json

namespace Bowst.Venue

open Bowst.Lib Bowst.Core Bowst.L2

/-- A venue message that could not be decoded. -/
inductive DecodeError where
  | json (err : JsonError)
  | missingField (name : String)
  | unexpectedValue (name : String)
  | unknownSymbol (symbol : Option Symbol)
  | invalidSequence (first last : Nat)
  | invalidNumber (field : String) (error : FixedError)
  | tooManyLevels (limit : Nat)
  deriving DecidableEq, Repr

/-- The `Debug` text of a symbol. -/
def Symbol.toText (symbol : Symbol) : String :=
  let name := String.ofList (symbol.text.map fun b => Char.ofNat b.toNat)
  s!"Symbol({name})"

def DecodeError.toText : DecodeError → String
  | .json err => s!"malformed JSON: {err.toText}"
  | .missingField name => s!"missing field \"{name}\""
  | .unexpectedValue name => s!"unexpected value for field \"{name}\""
  | .unknownSymbol (some symbol) => s!"unknown symbol Some({Symbol.toText symbol})"
  | .unknownSymbol none => "unknown symbol None"
  | .invalidSequence first last => s!"invalid sequence range {first}..={last}"
  | .invalidNumber field error => s!"invalid number in field \"{field}\": {error.toText}"
  | .tooManyLevels limit => s!"more than {limit} levels in one message"

/-- `?` on a reader's result. -/
def fromJson {α : Type} (res : Except JsonError α) : Except DecodeError α :=
  res.mapError .json

/-- `Option::ok_or`. -/
def orMissing {α : Type} (value : Option α) (name : String) : Except DecodeError α :=
  match value with
  | some value => .ok value
  | none => .error (.missingField name)

/-! ## Levels -/

def exact (text : Bytes) (increment : Increment) (field : String) : Except DecodeError Int :=
  match increment.parseUnitsBytes text .exact with
  | .ok units => .ok units.val
  | .error error => .error (.invalidNumber field error)

/-- Reads one `["price", "qty"]` pair, converted exactly to ticks and lots. -/
def readLevel (r : Reader) (tick lot : Increment) : Except DecodeError (Level × Reader) := do
  let r ← fromJson r.beginArray
  let (more, r) ← fromJson r.nextElement
  if !more then .error (.unexpectedValue "level")
  else do
    let (text, r) ← fromJson r.strBytes
    let price ← exact text tick "price"
    let (more, r) ← fromJson r.nextElement
    if !more then .error (.unexpectedValue "level")
    else do
      let (text, r) ← fromJson r.strBytes
      let qty ← exact text lot "qty"
      let (more, r) ← fromJson r.nextElement
      if more then .error (.unexpectedValue "level") else .ok (⟨price, qty⟩, r)

/-- The loop of `read_levels_into` and `read_updates_into`, which differ in what
they make of a level. -/
def readLevelsLoop {α : Type} (ofLevel : Level → α) (tick lot : Increment) (limit : Nat) :
    Nat → List α → Reader → Except DecodeError (List α × Reader)
  | 0, _, _ => .error (.json .unexpectedEnd)
  | rounds + 1, out, r => do
      let (more, r) ← fromJson r.nextElement
      if !more then .ok (out, r)
      else if out.length ≥ limit then .error (.tooManyLevels limit)
      else do
        let (level, r) ← readLevel r tick lot
        readLevelsLoop ofLevel tick lot limit rounds (out ++ [ofLevel level]) r

/-- Reads a whole level array, appending to `out` up to `limit`. -/
def readLevelsInto (r : Reader) (tick lot : Increment) (limit : Nat) (out : List Level) :
    Except DecodeError (List Level × Reader) := do
  let r ← fromJson r.beginArray
  readLevelsLoop id tick lot limit (r.rest.length + 1) out r

/-- Reads a whole level array as updates for `side`. -/
def readUpdatesInto (r : Reader) (side : Side) (tick lot : Increment) (limit : Nat)
    (out : List LevelUpdate) : Except DecodeError (List LevelUpdate × Reader) := do
  let r ← fromJson r.beginArray
  readLevelsLoop (fun level => ⟨side, level.price, level.qty⟩) tick lot limit (r.rest.length + 1)
    out r

/-! ## Depth updates -/

/-- One decoded diff-depth update. -/
structure DepthUpdate where
  instrument : InstrumentId
  eventTime : WallTime
  range : SeqRange
  updates : List LevelUpdate
  deriving DecidableEq, Repr

/-- Fields collected while walking a message, and the decoder's buffer. -/
structure Fields where
  eventSeen : Bool
  eventTime : Option Nat
  instrument : Option Instrument
  first : Option Nat
  last : Option Nat
  deferred : Side → Option Bytes
  sidesRead : Side → Bool
  updates : List LevelUpdate

def Fields.empty : Fields := ⟨false, none, none, none, none, fun _ => none, fun _ => false, []⟩

/-- The name of a side's array. -/
def sideName : Side → String
  | .buy => "b"
  | .sell => "a"

section DepthUpdate

variable (instruments : InstrumentTable) (limit : Nat)

def readSide (r : Reader) (side : Side) (instrument : Instrument) (fields : Fields) :
    Except DecodeError (Fields × Reader) := do
  let (updates, r) ← readUpdatesInto r side instrument.tick instrument.lot limit fields.updates
  .ok ({ fields with updates }, r)

/-- The branch of `read_object` for `"b"` and `"a"`. -/
def readSideMember (side : Side) (fields : Fields) (r : Reader) :
    Except DecodeError (Fields × Reader) :=
  if fields.sidesRead side || (fields.deferred side).isSome then
    -- A repeated side would apply its levels twice.
    .error (.unexpectedValue (sideName side))
  else
    match fields.instrument with
    | some instrument => do
        let (fields, r) ← readSide limit r side instrument fields
        .ok ({ fields with sidesRead := Function.update fields.sidesRead side true }, r)
    | none => do
        let fields := { fields with deferred := Function.update fields.deferred side (some r.rest) }
        let r ← fromJson r.skip
        .ok (fields, r)

/-- One member of a payload. -/
def readMember (key : Bytes) (fields : Fields) (r : Reader) :
    Except DecodeError (Fields × Reader) :=
  if key = ascii "e" then do
    let (event, r) ← fromJson r.str
    if event ≠ ascii "depthUpdate" then .error (.unexpectedValue "e")
    else .ok ({ fields with eventSeen := true }, r)
  else if key = ascii "E" then do
    let (time, r) ← fromJson r.u64
    .ok ({ fields with eventTime := some time }, r)
  else if key = ascii "s" then do
    let (symbol, r) ← fromJson r.str
    match instruments.find .binance symbol with
    | none => .error (.unknownSymbol (Symbol.new symbol))
    | some instrument => .ok ({ fields with instrument := some instrument }, r)
  else if key = ascii "U" then do
    let (first, r) ← fromJson r.u64
    .ok ({ fields with first := some first }, r)
  else if key = ascii "u" then do
    let (last, r) ← fromJson r.u64
    .ok ({ fields with last := some last }, r)
  else if key = ascii "b" then readSideMember limit .buy fields r
  else if key = ascii "a" then readSideMember limit .sell fields r
  else do
    let r ← fromJson r.skip
    .ok (fields, r)

/-- The loop of `read_object`, given how to read a member. -/
def readMembers (member : Bytes → Fields → Reader → Except DecodeError (Fields × Reader)) :
    Nat → Fields → Reader → Except DecodeError (Fields × Reader)
  | 0, _, _ => .error (.json .unexpectedEnd)
  | rounds + 1, fields, r => do
      let (key, r) ← fromJson r.nextKey
      match key with
      | none => .ok (fields, r)
      | some key => do
          let (fields, r) ← member key fields r
          readMembers member rounds fields r

/-- `read_object` without an envelope. -/
def readPayload (fields : Fields) (r : Reader) : Except DecodeError (Fields × Reader) := do
  let r ← fromJson r.beginObject
  readMembers (readMember instruments limit) (r.rest.length + 1) fields r

/-- `read_object` with `envelope_allowed`: the payload may be in `"data"`. -/
def readEnvelope (fields : Fields) (r : Reader) : Except DecodeError (Fields × Reader) := do
  let r ← fromJson r.beginObject
  readMembers
    (fun key fields r =>
      if key = ascii "data" then readPayload instruments limit fields r
      else readMember instruments limit key fields r)
    (r.rest.length + 1) fields r

/-- A side at the end of the message: read before, read now, or missing. -/
def finishSide (side : Side) (instrument : Instrument) (fields : Fields) :
    Except DecodeError Fields :=
  match fields.deferred side, fields.sidesRead side with
  | some rest, _ => do
      let (fields, _) ← readSide limit (Reader.new rest) side instrument fields
      .ok fields
  | none, true => .ok fields
  | none, false => .error (.missingField (sideName side))

/-- `DepthUpdateDecoder::decode`. -/
def decodeUpdate (message : Bytes) : Except DecodeError DepthUpdate := do
  let (fields, r) ← readEnvelope instruments limit .empty (Reader.new message)
  fromJson r.finish
  let instrument ← orMissing fields.instrument "s"
  let fields ← finishSide limit .buy instrument fields
  let fields ← finishSide limit .sell instrument fields
  if !fields.eventSeen then .error (.missingField "e")
  else do
    let first ← orMissing fields.first "U"
    let last ← orMissing fields.last "u"
    match SeqRange.new first last with
    | none => .error (.invalidSequence first last)
    | some range => do
        let eventTime ← orMissing (fields.eventTime.bind WallTime.fromUnixMillis) "E"
        .ok ⟨instrument.id, eventTime, range, fields.updates⟩

end DepthUpdate

/-! ## Depth snapshots -/

/-- One decoded depth snapshot. -/
structure DepthSnapshot where
  lastUpdateId : Nat
  bids : List Level
  asks : List Level
  deriving DecidableEq, Repr

/-- What the snapshot decoder has read so far. -/
structure SnapshotFields where
  lastUpdateId : Option Nat
  bids : List Level
  seenBids : Bool
  asks : List Level
  seenAsks : Bool
  deriving DecidableEq, Repr

section DepthSnapshot

variable (instrument : Instrument) (limit : Nat)

/-- One member of a snapshot. -/
def readSnapshotMember (key : Bytes) (fields : SnapshotFields) (r : Reader) :
    Except DecodeError (SnapshotFields × Reader) :=
  if key = ascii "lastUpdateId" then do
    let (id, r) ← fromJson r.u64
    .ok ({ fields with lastUpdateId := some id }, r)
  else if key = ascii "bids" then do
    let (bids, r) ← readLevelsInto r instrument.tick instrument.lot limit fields.bids
    .ok ({ fields with bids, seenBids := true }, r)
  else if key = ascii "asks" then do
    let (asks, r) ← readLevelsInto r instrument.tick instrument.lot limit fields.asks
    .ok ({ fields with asks, seenAsks := true }, r)
  else do
    let r ← fromJson r.skip
    .ok (fields, r)

def readSnapshotMembers : Nat → SnapshotFields → Reader →
    Except DecodeError (SnapshotFields × Reader)
  | 0, _, _ => .error (.json .unexpectedEnd)
  | rounds + 1, fields, r => do
      let (key, r) ← fromJson r.nextKey
      match key with
      | none => .ok (fields, r)
      | some key => do
          let (fields, r) ← readSnapshotMember instrument limit key fields r
          readSnapshotMembers rounds fields r

/-- `DepthSnapshotDecoder::decode`. -/
def decodeSnapshot (message : Bytes) : Except DecodeError DepthSnapshot := do
  let r ← fromJson (Reader.new message).beginObject
  let (fields, r) ← readSnapshotMembers instrument limit (r.rest.length + 1)
    ⟨none, [], false, [], false⟩ r
  fromJson r.finish
  if !fields.seenBids then .error (.missingField "bids")
  else if !fields.seenAsks then .error (.missingField "asks")
  else do
    let lastUpdateId ← orMissing fields.lastUpdateId "lastUpdateId"
    .ok ⟨lastUpdateId, fields.bids, fields.asks⟩

end DepthSnapshot

end Bowst.Venue
