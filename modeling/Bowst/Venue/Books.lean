/-
Bowst.Venue.Books — the deterministic core of Binance market data
(`bowst-venue/src/binance/books.rs`): every instrument's book, the verification
("shadow") book, and what the handler is told.

A method that takes a handler returns the calls it makes on it, in order. A book
passed to the handler is the book at that moment.
-/
import Bowst.Venue.Depth

namespace Bowst.Venue

open Bowst.Lib Bowst.Core Bowst.L2

/-- Levels per side compared when verifying a book against a fresh snapshot. -/
def verifyLevels : Nat := 100

/-! ## What is reported -/

/-- Where a verified book first differed from the book rebuilt from a fresh
snapshot. -/
structure Mismatch where
  side : Side
  level : Nat
  updateId : Nat
  live : Option Level
  rebuilt : Option Level
  deriving DecidableEq, Repr

/-- The `Debug` text of `Option<Level>`. -/
def levelText : Option Level → String
  | none => "None"
  | some level => s!"Some(Level \x7b price: Price({level.price}), qty: Qty({level.qty}) \x7d)"

def Mismatch.toText (m : Mismatch) : String :=
  s!"book differs from a fresh snapshot at update {m.updateId}: {m.side.toText} level {m.level}" ++
    s!" is {levelText m.live}, expected {levelText m.rebuilt}"

/-- Why a book went down. -/
inductive DownReason where
  | sync (err : SyncError)
  | mismatch (m : Mismatch)
  deriving DecidableEq, Repr

def DownReason.toText : DownReason → String
  | .sync err => err.toText
  | .mismatch m => m.toText

/-- The result of applying one stream message. -/
inductive Applied where
  | quiet
  | book (instrument : InstrumentId) (eventTime : WallTime)
  | down (instrument : InstrumentId) (reason : DownReason)
  deriving DecidableEq, Repr

/-- What applying a snapshot did. -/
inductive SnapshotOutcome where
  | live
  | unchanged
  | tooOld
  | invalid
  deriving DecidableEq, Repr

/-- The result of loading a verification snapshot. -/
inductive Verification where
  | notRunning
  | pending
  | passed
  | failed (m : Mismatch)
  | unusable
  deriving DecidableEq, Repr

/-- A change in session or instrument state. -/
inductive MdStatus where
  | connecting
  | connected
  | disconnected (reason : String)
  | instrumentLive (instrument : InstrumentId)
  | instrumentDown (instrument : InstrumentId) (reason : String)
  | snapshotFailed (instrument : InstrumentId) (reason : String)
  deriving DecidableEq, Repr

/-- A call of the handler. -/
inductive HandlerCall where
  | onBook (instrument : InstrumentId) (book : Book) (eventTime : WallTime)
  | onStatus (status : MdStatus)
  deriving DecidableEq, Repr

/-- Counters since the session started: saturating `u64`s. -/
structure MdStats where
  messages : Nat
  deltasApplied : Nat
  bookInvalidations : Nat
  connections : Nat
  snapshotsRequested : Nat
  snapshotsApplied : Nat
  verificationsPassed : Nat
  verificationMismatches : Nat
  verificationsAbandoned : Nat
  deriving DecidableEq, Repr

def MdStats.zero : MdStats := ⟨0, 0, 0, 0, 0, 0, 0, 0, 0⟩

/-! ## Comparing books -/

/-- The loop of `compare` over one side, from `level` on, with `count` levels
left. -/
def compareSide (side : Side) (updateId : Nat) (live rebuilt : Ladder) :
    Nat → Nat → Option Mismatch
  | 0, _ => none
  | count + 1, level =>
      if live.nthBest level ≠ rebuilt.nthBest level then
        some ⟨side, level, updateId, live.nthBest level, rebuilt.nthBest level⟩
      else if (live.nthBest level).isNone then none
      else compareSide side updateId live rebuilt count (level + 1)

/-- The first difference in the top `verifyLevels` levels of either side. -/
def compareBooks (live rebuilt : Book) (updateId : Nat) : Option Mismatch :=
  (compareSide .buy updateId (live.side .buy) (rebuilt.side .buy) verifyLevels 0).orElse fun _ =>
    compareSide .sell updateId (live.side .sell) (rebuilt.side .sell) verifyLevels 0

/-! ## The books -/

/-- An in-progress verification of one instrument. -/
structure Shadow where
  instrument : Option InstrumentId
  sync : BookSync
  loaded : Bool
  deriving DecidableEq, Repr

/-- Every configured instrument's book, and the limits of the decoders. -/
structure MdBooks where
  instruments : InstrumentTable
  syncs : List BookSync
  shadow : Shadow
  maxLevelsPerMessage : Nat
  snapshotLevels : Nat
  stats : MdStats
  deriving DecidableEq, Repr

namespace MdBooks

/-- Allocates every book. `none` if a configured size is zero. -/
def new (instruments : InstrumentTable) (sync : SyncConfig) (maxLevelsPerMessage : Nat)
    (snapshotLevels : Nat) : Option MdBooks :=
  match instruments.instruments.mapM fun _ => (BookSync.new sync).toOption,
      (BookSync.new sync).toOption with
  | some syncs, some shadow =>
      some { instruments, syncs, shadow := ⟨none, shadow, false⟩, maxLevelsPerMessage,
             snapshotLevels, stats := .zero }
  | _, _ => none

/-- An instrument's sync. -/
def sync? (b : MdBooks) (instrument : InstrumentId) : Option BookSync := b.syncs[instrument.index]?

def setSync (b : MdBooks) (instrument : InstrumentId) (sync : BookSync) : MdBooks :=
  { b with syncs := b.syncs.set instrument.index sync }

/-- Whether an instrument's book is live. -/
def isLive (b : MdBooks) (instrument : InstrumentId) : Bool :=
  (b.sync? instrument).any BookSync.isLive

/-- An instrument's book, while live. -/
def book (b : MdBooks) (instrument : InstrumentId) : Option Book :=
  (b.sync? instrument).bind BookSync.book

/-- The instrument being verified, if any. -/
def verifying (b : MdBooks) : Option InstrumentId := b.shadow.instrument

/-! ### Counters -/

def countMessage (b : MdBooks) : MdBooks :=
  { b with stats := { b.stats with messages := saturatingAdd b.stats.messages 1 } }

def countDelta (b : MdBooks) : MdBooks :=
  { b with stats := { b.stats with deltasApplied := saturatingAdd b.stats.deltasApplied 1 } }

def countInvalidation (b : MdBooks) : MdBooks :=
  { b with stats := { b.stats with
      bookInvalidations := saturatingAdd b.stats.bookInvalidations 1 } }

def countSnapshot (b : MdBooks) : MdBooks :=
  { b with stats := { b.stats with
      snapshotsApplied := saturatingAdd b.stats.snapshotsApplied 1 } }

def countPassed (b : MdBooks) : MdBooks :=
  { b with stats := { b.stats with
      verificationsPassed := saturatingAdd b.stats.verificationsPassed 1 } }

def countMismatch (b : MdBooks) : MdBooks :=
  { b with stats := { b.stats with
      verificationMismatches := saturatingAdd b.stats.verificationMismatches 1 } }

/-! ### Verification -/

/-- Ends any verification in progress without a verdict. -/
def cancelVerification (b : MdBooks) : MdBooks :=
  if b.shadow.instrument.isSome then { b with shadow := ⟨none, b.shadow.sync.reset, false⟩ } else b

/-- Starts verifying `instrument`. `false`, and nothing is started, if its book
is not live. -/
def startVerification (b : MdBooks) (instrument : InstrumentId) : Bool × MdBooks :=
  if !b.isLive instrument then (false, b)
  else (true, { b with shadow := ⟨some instrument, b.shadow.sync.reset, false⟩ })

/-- Gives a delta to the verification book; what comes of it does not matter. -/
def feedShadow (b : MdBooks) (update : DepthUpdate) : MdBooks :=
  { b with shadow := { b.shadow with
      sync := (b.shadow.sync.onDelta update.range update.updates).2 } }

/-- The end of `settle_verification`, when the books were compared. -/
def settleVerdict (b : MdBooks) (instrument : InstrumentId) :
    Option Mismatch → Option Mismatch × MdBooks
  | none => (none, b.cancelVerification.countPassed)
  | some mismatch =>
      let b := b.cancelVerification.countMismatch.countInvalidation
      (some mismatch,
        match b.sync? instrument with
        | some sync => b.setSync instrument sync.reset
        | none => b)

/-- The verdict on two books at the same update. -/
def verdict (live rebuilt : BookSync) (updateId : Nat) : Option Mismatch :=
  match live.book, rebuilt.book with
  | some live, some rebuilt => compareBooks live rebuilt updateId
  | _, _ => none

/-- Compares the books if a snapshot is loaded and both are at the same update.
Ends the verification when compared; on a mismatch, also takes the live book
down. -/
def settleVerification (b : MdBooks) : Option Mismatch × MdBooks :=
  match b.shadow.instrument with
  | none => (none, b)
  | some instrument =>
      if !b.shadow.loaded then (none, b)
      else
        match b.sync? instrument with
        | none => (none, b)
        | some live =>
            match live.lastSeq, b.shadow.sync.lastSeq with
            | some updateId, some shadowSeq =>
                if updateId ≠ shadowSeq then (none, b)
                else b.settleVerdict instrument (verdict live b.shadow.sync updateId)
            | _, _ => (none, b)

/-! ### Stream messages -/

/-- `apply` on a decoded message. -/
def applyUpdate (b : MdBooks) (update : DepthUpdate) : Except String Applied × MdBooks :=
  match b.sync? update.instrument with
  | none => (.error "message for an unconfigured instrument", b)
  | some sync =>
      let res := sync.onDelta update.range update.updates
      let b := b.setSync update.instrument res.2
      let verifying := decide (b.shadow.instrument = some update.instrument)
      match res.1 with
      | .ok .applied =>
          let b := b.countDelta
          if verifying then
            match (b.feedShadow update).settleVerification with
            | (some mismatch, b) => (.ok (.down update.instrument (.mismatch mismatch)), b)
            | (none, b) => (.ok (.book update.instrument update.eventTime), b)
          else (.ok (.book update.instrument update.eventTime), b)
      | .ok .buffered | .ok .stale =>
          (.ok .quiet, if verifying then b.feedShadow update else b)
      | .error err =>
          let b := if verifying then b.cancelVerification else b
          (.ok (.down update.instrument (.sync err)), b.countInvalidation)

/-- Decodes and applies one stream message without calling the handler. -/
def apply (b : MdBooks) (message : Bytes) : Except String Applied × MdBooks :=
  let b := b.countMessage
  match decodeUpdate b.instruments b.maxLevelsPerMessage message with
  | .error err => (.error s!"undecodable message: {err.toText}", b)
  | .ok update => b.applyUpdate update

/-- Tells the handler what `apply` did. -/
def report (b : MdBooks) : Applied → List HandlerCall
  | .quiet => []
  | .book instrument eventTime =>
      match b.book instrument with
      | some book => [.onBook instrument book eventTime]
      | none => []
  | .down instrument reason => [.onStatus (.instrumentDown instrument reason.toText)]

/-- Decodes and applies one stream message, then tells the handler. -/
def onMessage (b : MdBooks) (message : Bytes) :
    Except String Applied × MdBooks × List HandlerCall :=
  match b.apply message with
  | (.ok applied, b) => (.ok applied, b, b.report applied)
  | (.error err, b) => (.error err, b, [])

/-! ### Snapshots -/

/-- Turns a snapshot result into an outcome, reporting status changes. -/
def settle (b : MdBooks) (instrument : InstrumentId) (res : Except SyncError Bool × BookSync)
    (fetchedAt : WallTime) : SnapshotOutcome × MdBooks × List HandlerCall :=
  let b := b.setSync instrument res.2
  match res.1 with
  | .ok true =>
      match res.2.book with
      | some book =>
          (.live, b.countSnapshot,
            [.onStatus (.instrumentLive instrument), .onBook instrument book fetchedAt])
      | none => (.live, b, [])
  | .ok false => (.unchanged, b, [])
  | .error (.snapshotTooOld _ _) => (.tooOld, b, [])
  | .error err =>
      (.invalid, b.countInvalidation, [.onStatus (.instrumentDown instrument err.toText)])

/-- Applies a decoded snapshot. -/
def onSnapshot (b : MdBooks) (instrument : InstrumentId) (snapshot : DepthSnapshot)
    (fetchedAt : WallTime) : SnapshotOutcome × MdBooks × List HandlerCall :=
  match b.sync? instrument with
  | none => (.invalid, b, [])
  | some sync =>
      b.settle instrument (sync.onSnapshot snapshot.lastUpdateId snapshot.bids snapshot.asks)
        fetchedAt

/-- Decodes a raw REST snapshot body and applies it. -/
def onRawSnapshot (b : MdBooks) (instrument : InstrumentId) (body : Bytes)
    (fetchedAt : WallTime) : SnapshotOutcome × MdBooks × List HandlerCall :=
  match b.instruments.get instrument, b.sync? instrument with
  | some info, some sync =>
      match decodeSnapshot info b.snapshotLevels body with
      | .ok snapshot =>
          b.settle instrument (sync.onSnapshot snapshot.lastUpdateId snapshot.bids snapshot.asks)
            fetchedAt
      | .error err =>
          (.invalid, b,
            [.onStatus (.instrumentDown instrument s!"snapshot decode: {err.toText}")])
  | _, _ => (.invalid, b, [])

/-! ### Verification snapshots -/

def afterVerificationSnapshot (b : MdBooks) (instrument : InstrumentId) (loaded : Bool) :
    Verification × MdBooks × List HandlerCall :=
  if !loaded then (.unusable, b.cancelVerification, [])
  else
    let b := { b with shadow := { b.shadow with loaded := true } }
    match b.settleVerification with
    | (some mismatch, b) => (.failed mismatch, b, b.report (.down instrument (.mismatch mismatch)))
    | (none, b) => (if b.shadow.instrument.isNone then .passed else .pending, b, [])

/-- Loads a snapshot into the verification book. -/
def loadShadow (b : MdBooks) (snapshot : DepthSnapshot) : Bool × MdBooks :=
  let res := b.shadow.sync.onSnapshot snapshot.lastUpdateId snapshot.bids snapshot.asks
  (res.1.toOption.isSome, { b with shadow := { b.shadow with sync := res.2 } })

/-- Loads a decoded snapshot into the verification book, comparing right away if
the live book is at the same update. -/
def onVerificationSnapshot (b : MdBooks) (instrument : InstrumentId) (snapshot : DepthSnapshot) :
    Verification × MdBooks × List HandlerCall :=
  if b.shadow.instrument ≠ some instrument || b.shadow.loaded then (.notRunning, b, [])
  else
    let (loaded, b) := b.loadShadow snapshot
    b.afterVerificationSnapshot instrument loaded

/-- Decodes a raw REST snapshot body and loads it into the verification book. -/
def onRawVerificationSnapshot (b : MdBooks) (instrument : InstrumentId) (body : Bytes) :
    Verification × MdBooks × List HandlerCall :=
  if b.shadow.instrument ≠ some instrument || b.shadow.loaded then (.notRunning, b, [])
  else
    match b.instruments.get instrument with
    | none => (.notRunning, b, [])
    | some info =>
        match decodeSnapshot info b.snapshotLevels body with
        | .ok snapshot =>
            let (loaded, b) := b.loadShadow snapshot
            b.afterVerificationSnapshot instrument loaded
        | .error _ => b.afterVerificationSnapshot instrument false

/-- Takes every book down. Ends any verification. -/
def resetAll (b : MdBooks) : MdBooks :=
  ({ b with syncs := b.syncs.map BookSync.reset } : MdBooks).cancelVerification

end MdBooks

end Bowst.Venue
