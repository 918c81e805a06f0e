/-
Bowst.Venue.Session — the market-data session
(`MdSession` of `bowst-venue/src/binance/md.rs`) together with its snapshot
thread (`SnapshotWorker`).

The two threads share only their two channels, which are the queues `jobs` and
`results` here. The snapshot thread lives as long as the session, so sending to
it succeeds. What the network brings and what the clocks show are arguments of
the steps. Every record is accepted by the journal. The report timer, the
latency histograms and the waits of the snapshot thread are left out.
-/
import Bowst.Venue.Replay

namespace Bowst.Venue

open Bowst.Lib Bowst.Core Bowst.L2 Bowst.Journal

/-! ## Time -/

/-- Nanoseconds. -/
abbrev Duration := Nat

/-- A monotonic point in time, in nanoseconds. -/
abbrev Instant := Nat

/-- The last point in time: its seconds are an `i64`. -/
def maxInstant : Instant := 2 ^ 63 * 1000000000 - 1

/-- `now + wait`, saturating far in the future. -/
def later (now : Instant) (wait : Duration) : Instant :=
  if now + wait ≤ maxInstant then now + wait
  else if now + 86400 * 1000000000 ≤ maxInstant then now + 86400 * 1000000000
  else now

/-- What the clocks show when a step reads them. -/
structure Readings where
  now : Instant
  mono : UInt64
  wall : WallTime
  deriving DecidableEq, Repr

/-! ## Snapshots -/

inductive SnapshotState where
  | idle
  | requested
  | retryAt (time : Instant)
  deriving DecidableEq, Repr

/-- Whether a request is due. -/
def SnapshotState.due (now : Instant) : SnapshotState → Bool
  | .idle => true
  | .retryAt time => decide (now ≥ time)
  | .requested => false

/-- Why a snapshot was requested. -/
inductive Purpose where
  | sync
  | verify
  deriving DecidableEq, Repr

structure SnapshotJob where
  instrument : Instrument
  generation : UInt64
  purpose : Purpose
  deriving DecidableEq, Repr

/-- A decoded snapshot, with the response body it was decoded from. -/
structure OwnedSnapshot extends DepthSnapshot where
  raw : Bytes
  fetchedAt : WallTime
  deriving DecidableEq, Repr

structure SnapshotFailure where
  reason : String
  retryAfter : Option Duration
  deriving DecidableEq, Repr

structure SnapshotResult where
  instrument : InstrumentId
  generation : UInt64
  purpose : Purpose
  outcome : Except SnapshotFailure OwnedSnapshot
  deriving DecidableEq, Repr

/-- `fetch`, from the body of a good response or the reason why there is none. -/
def fetch (limit : Nat) (instrument : Instrument) (response : Except SnapshotFailure Bytes)
    (fetchedAt : WallTime) : Except SnapshotFailure OwnedSnapshot :=
  match response with
  | .error failure => .error failure
  | .ok body =>
      match decodeSnapshot instrument limit body with
      | .error err => .error ⟨s!"decode: {err.toText}", none⟩
      | .ok snapshot => .ok { snapshot with raw := body, fetchedAt }

/-! ## The session -/

/-- The largest `usize`. -/
abbrev usizeMax : Nat := u64Max

/-- The session settings that steps read. -/
structure MdConfig where
  snapshotLimit : UInt32
  sync : SyncConfig
  maxLevelsPerMessage : Nat
  snapshotRetry : Duration
  verifyEvery : Option Duration
  verifyTimeout : Duration
  levels_le : sync.levelsPerSide ≤ usizeMax
  messages_le : sync.bufferedMessages ≤ usizeMax
  updates_le : sync.bufferedUpdates ≤ usizeMax
  perMessage_le : maxLevelsPerMessage ≤ usizeMax
  deriving DecidableEq, Repr

/-- Invalid session configuration. -/
inductive MdError where
  | noInstruments
  | invalidSizes
  deriving DecidableEq, Repr

/-- The session, the channels to its snapshot thread, and the job this thread
works on. `handler` is every call of the handler so far, `journal` every record
so far, if journaling is on. -/
structure MdSession where
  config : MdConfig
  books : MdBooks
  states : List SnapshotState
  jobs : List SnapshotJob
  working : Option SnapshotJob
  results : List SnapshotResult
  generation : UInt64
  handler : List HandlerCall
  journal : Option (List Record)
  verification : Option (InstrumentId × Instant)
  nextVerification : Instant
  verifyCursor : Nat
  deriving DecidableEq, Repr

namespace MdSession

/-- Allocates every book, and starts the snapshot thread. -/
def new (config : MdConfig) (instruments : InstrumentTable) (now : Instant) :
    Except MdError MdSession :=
  if instruments.instruments = [] then .error .noInstruments
  else
    match MdBooks.new instruments config.sync config.maxLevelsPerMessage
        config.snapshotLimit.toNat with
    | none => .error .invalidSizes
    | some books =>
        .ok { config, books, states := instruments.instruments.map fun _ => .idle,
              jobs := [], working := none, results := [], generation := 0, handler := [],
              journal := none, verification := none, nextVerification := now,
              verifyCursor := 0 }

/-! ### Telling -/

/-- Appends a journal record, if journaling is on. -/
def record (s : MdSession) (kind : Kind) (wall : Option WallTime) (parts : List Bytes)
    (clock : Readings) : MdSession :=
  let header : RecordHeader :=
    ⟨kind, VenueId.binance.code, clock.mono, (wall.getD clock.wall).nanos⟩
  { s with journal := s.journal.map fun records => records ++ [⟨header, parts.flatten⟩] }

/-- Calls the handler. -/
def tell (s : MdSession) (calls : List HandlerCall) : MdSession :=
  { s with handler := s.handler ++ calls }

/-- The ID at the front of a payload. -/
def idBytes (instrument : InstrumentId) : Bytes := toLe 4 instrument.index

def setState (s : MdSession) (instrument : InstrumentId) (state : SnapshotState) : MdSession :=
  { s with states := s.states.set instrument.index state }

def countConnection (s : MdSession) : MdSession :=
  { s with books := { s.books with stats := { s.books.stats with
      connections := saturatingAdd s.books.stats.connections 1 } } }

def countRequest (s : MdSession) : MdSession :=
  { s with books := { s.books with stats := { s.books.stats with
      snapshotsRequested := saturatingAdd s.books.stats.snapshotsRequested 1 } } }

def countAbandoned (s : MdSession) : MdSession :=
  { s with books := { s.books with stats := { s.books.stats with
      verificationsAbandoned := saturatingAdd s.books.stats.verificationsAbandoned 1 } } }

/-- The sizing of the session. -/
def sizing (s : MdSession) : BookSizing :=
  ⟨s.config.sync, s.config.maxLevelsPerMessage, s.config.snapshotLimit.toNat⟩

/-- Journals everything this session receives, from a session-start record on. -/
def withJournal (s : MdSession) (clock : Readings) : MdSession :=
  ({ s with journal := some [] } : MdSession).record .sessionStart none
    [describe s.sizing s.books.instruments] clock

section Status

-- The `Debug` text of a status.
variable (debugText : MdStatus → Bytes)

/-- Reports a session-level status change to the handler and the journal. -/
def status (s : MdSession) (status : MdStatus) (clock : Readings) : MdSession :=
  (s.record .mdStatus none [debugText status] clock).tell [.onStatus status]

/-! ### Messages -/

/-- The part of `after_apply` about a verification that ended on a message. -/
def endVerification (s : MdSession) (applied : Applied) : MdSession :=
  match s.verification with
  | none => s
  | some (id, _) =>
      if s.books.verifying = some id then s
      else
        -- Compared, or cancelled because the live book hit a gap.
        let s :=
          match applied with
          | .down instrument (.sync _) => if instrument = id then s.countAbandoned else s
          | _ => s
        { s with verification := none }

/-- Reports an applied message to the handler and schedules a resync if a book
went down. -/
def afterApply (s : MdSession) (applied : Applied) : MdSession :=
  let s := (s.tell (s.books.report applied)).endVerification applied
  match applied with
  | .down instrument _ => s.setState instrument .idle
  | _ => s

/-- What is left of a data message after it was applied. An error ends the
connection, which is a step of its own. -/
def afterMessage (s : MdSession) : Except String Applied → MdSession
  | .ok applied => s.afterApply applied
  | .error _ => s

/-- A data message: journaled exactly as received, before decoding. -/
def message (s : MdSession) (message : Bytes) (clock : Readings) : MdSession :=
  let s := s.record .mdMessage none [message] clock
  let (res, books) := s.books.apply message
  ({ s with books } : MdSession).afterMessage res

/-! ### Snapshots -/

/-- The loop body of `request_snapshots`. -/
def requestSnapshot (now : Instant) (s : MdSession) (index : Nat) : MdSession :=
  let id := InstrumentId.ofIndex index
  let due := s.states[index]?.any (SnapshotState.due now)
  if s.books.isLive id || !due then s
  else
    match s.books.instruments.get id with
    | none => s
    | some instrument =>
        ({ s with
          jobs := s.jobs ++ [⟨instrument, s.generation, .sync⟩]
          states := s.states.set index .requested } : MdSession).countRequest

def requestSnapshots (s : MdSession) (now : Instant) : MdSession :=
  (List.range s.states.length).foldl (requestSnapshot now) s

/-- The state an instrument is in after a snapshot was applied. -/
def nextState (s : MdSession) (clock : Readings) : SnapshotOutcome → SnapshotState
  | .live | .unchanged | .tooOld => .idle
  | .invalid => .retryAt (later clock.now s.config.snapshotRetry)

/-- `apply_snapshot` of a failed fetch. -/
def failSnapshot (s : MdSession) (instrument : InstrumentId) (failure : SnapshotFailure)
    (clock : Readings) : MdSession :=
  let wait := failure.retryAfter.elim s.config.snapshotRetry (max · s.config.snapshotRetry)
  (s.setState instrument (.retryAt (later clock.now wait))).status debugText
    (.snapshotFailed instrument failure.reason) clock

/-- `apply_snapshot` of a snapshot. -/
def useSnapshot (s : MdSession) (instrument : InstrumentId) (snapshot : OwnedSnapshot)
    (clock : Readings) : MdSession :=
  let s := s.record .mdSnapshot (some snapshot.fetchedAt) [idBytes instrument, snapshot.raw] clock
  let (outcome, books, calls) :=
    s.books.onSnapshot instrument snapshot.toDepthSnapshot snapshot.fetchedAt
  (({ s with books } : MdSession).tell calls).setState instrument (s.nextState clock outcome)

def applySnapshot (s : MdSession) (result : SnapshotResult) (clock : Readings) : MdSession :=
  match result.outcome with
  | .error failure => s.failSnapshot debugText result.instrument failure clock
  | .ok snapshot => s.useSnapshot result.instrument snapshot clock

/-! ### Verification -/

/-- What is left of a verification after its snapshot gave a verdict. -/
def afterVerdict (s : MdSession) (id : InstrumentId) : Verification → MdSession
  | .pending => s
  | .passed | .notRunning => { s with verification := none }
  | .failed _ => ({ s with verification := none } : MdSession).setState id .idle
  | .unusable => ({ s with verification := none } : MdSession).countAbandoned

def abandonVerification (s : MdSession) : MdSession :=
  ({ s with books := s.books.cancelVerification, verification := none } :
    MdSession).countAbandoned

/-- `apply_verification_snapshot` of a snapshot. -/
def useVerificationSnapshot (s : MdSession) (id : InstrumentId) (snapshot : OwnedSnapshot)
    (clock : Readings) : MdSession :=
  let s := s.record .mdVerifySnapshot (some snapshot.fetchedAt) [idBytes id, snapshot.raw] clock
  let (verdict, books, calls) := s.books.onVerificationSnapshot id snapshot.toDepthSnapshot
  (({ s with books } : MdSession).tell calls).afterVerdict id verdict

def applyVerificationSnapshot (s : MdSession) (result : SnapshotResult) (clock : Readings) :
    MdSession :=
  match s.verification with
  | none => s
  | some (id, _) =>
      if id ≠ result.instrument ∨ s.books.verifying ≠ some id then s
      else
        match result.outcome with
        | .error _ => s.abandonVerification
        | .ok snapshot => s.useVerificationSnapshot id snapshot clock

/-- One round of `collect_snapshots`. -/
def collectSnapshot (s : MdSession) (clock : Readings) : MdSession :=
  match s.results with
  | [] => s
  | result :: results =>
      let s := { s with results }
      -- Fetched for a previous connection.
      if result.generation ≠ s.generation then s
      else
        match result.purpose with
        | .sync => s.applySnapshot debugText result clock
        | .verify => s.applyVerificationSnapshot result clock

/-- The part of `schedule_verification` after the books started to verify. -/
def sendVerification (s : MdSession) (id : InstrumentId) (instrument : Instrument)
    (clock : Readings) : MdSession :=
  let s := s.record .mdVerifyStart none [idBytes id] clock
  ({ s with
    jobs := s.jobs ++ [⟨instrument, s.generation, .verify⟩]
    verification := some (id, clock.now) } : MdSession).countRequest

/-- The loop of `schedule_verification`, over the steps from the cursor that are
left. -/
def verifyNext (s : MdSession) (clock : Readings) : List Nat → MdSession
  | [] => s
  | step :: steps =>
      let index :=
        (s.verifyCursor + step) % (usizeMax + 1) % s.books.instruments.instruments.length
      let id := InstrumentId.ofIndex index
      match s.books.instruments.get id with
      | none => s.verifyNext clock steps
      | some instrument =>
          match s.books.startVerification id with
          | (false, _) => s.verifyNext clock steps
          | (true, books) =>
              { ({ s with books } : MdSession).sendVerification id instrument clock with
                verifyCursor := (index + 1) % (usizeMax + 1) }

/-- The part of `schedule_verification` that starts the next one when due. The
clock is read again at the end of it. -/
def startVerification (s : MdSession) (every : Duration) (clock : Readings) (after : Instant) :
    MdSession :=
  if clock.now < s.nextVerification then s
  else
    { s.verifyNext clock (List.range s.books.instruments.instruments.length) with
      nextVerification := later after every }

/-- Starts the next verification when due, and abandons one that has taken too
long. -/
def scheduleVerification (s : MdSession) (clock : Readings) (after : Instant) : MdSession :=
  match s.config.verifyEvery with
  | none => s
  | some every =>
      match s.verification with
      | none => s.startVerification every clock after
      | some (_, started) =>
          if clock.now - started < s.config.verifyTimeout then s
          else s.abandonVerification.startVerification every clock after

/-! ### Connections -/

/-- Forgets the verification in progress. -/
def dropVerification (s : MdSession) : MdSession :=
  if s.verification.isSome then ({ s with verification := none } : MdSession).countAbandoned else s

def idleAll (s : MdSession) : MdSession := { s with states := s.states.map fun _ => .idle }

/-- Takes every book down after the connection ends. -/
def takeAllDown (s : MdSession) (clock : Readings) : MdSession :=
  let s := s.record .mdReset none [] clock
  ({ s with generation := s.generation + 1, books := s.books.resetAll } :
    MdSession).dropVerification.idleAll

/-! ### The snapshot thread -/

/-- `jobs.recv`. -/
def takeJob (s : MdSession) : MdSession :=
  match s.working, s.jobs with
  | none, job :: jobs => { s with working := some job, jobs }
  | _, _ => s

/-- The rest of the loop body of `SnapshotWorker::run`. -/
def finishJob (s : MdSession) (response : Except SnapshotFailure Bytes) (fetchedAt : WallTime) :
    MdSession :=
  match s.working with
  | none => s
  | some job =>
      { s with
        working := none
        results := s.results ++ [{
          instrument := job.instrument.id
          generation := job.generation
          purpose := job.purpose
          outcome := fetch s.config.snapshotLimit.toNat job.instrument response fetchedAt }] }

end Status

end MdSession

/-! ## Steps -/

/-- A step of either thread, with what it reads. -/
inductive SessionStep where
  | connecting (clock : Readings)
  | connected (clock : Readings)
  | message (bytes : Bytes) (clock : Readings)
  | collectSnapshot (clock : Readings)
  | requestSnapshots (now : Instant)
  | scheduleVerification (clock : Readings) (after : Instant)
  | takeAllDown (clock : Readings)
  | disconnected (reason : String) (clock : Readings)
  | takeJob
  | finishJob (response : Except SnapshotFailure Bytes) (fetchedAt : WallTime)
  deriving DecidableEq, Repr

namespace SessionStep

variable (debugText : MdStatus → Bytes)

/-- The session after a step. -/
def run (s : MdSession) : SessionStep → MdSession
  | .connecting clock => s.status debugText .connecting clock
  | .connected clock => s.countConnection.status debugText .connected clock
  | .message bytes clock => s.message bytes clock
  | .collectSnapshot clock => s.collectSnapshot debugText clock
  | .requestSnapshots now => s.requestSnapshots now
  | .scheduleVerification clock after => s.scheduleVerification clock after
  | .takeAllDown clock => s.takeAllDown clock
  | .disconnected reason clock => s.status debugText (.disconnected reason) clock
  | .takeJob => s.takeJob
  | .finishJob response fetchedAt => s.finishJob response fetchedAt

/-- Whether a step ends a connection. -/
def isReconnect : SessionStep → Bool
  | .takeAllDown _ => true
  | _ => false

end SessionStep

/-- A session before its first step, with or without a journal. -/
inductive MdSession.Fresh (config : MdConfig) (instruments : InstrumentTable) : MdSession → Prop
  | new {s : MdSession} {now : Instant} (h : MdSession.new config instruments now = .ok s) :
      Fresh config instruments s
  | withJournal {s : MdSession} {now : Instant} (clock : Readings)
      (h : MdSession.new config instruments now = .ok s) :
      Fresh config instruments (s.withJournal clock)

/-- The session after steps. -/
def MdSession.run (debugText : MdStatus → Bytes) (s : MdSession) (steps : List SessionStep) :
    MdSession := steps.foldl (SessionStep.run debugText) s

end Bowst.Venue
