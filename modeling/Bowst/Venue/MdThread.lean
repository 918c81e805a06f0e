/-
Bowst.Venue.MdThread — the program of the market-data thread
(`MdSession::run`, `stream` and `maybe_report` of `bowst-venue/src/binance/md.rs`).

The thread is a machine whose place says where in the program it is. An action runs
it to the next place, or is one of the snapshot thread, which may act between any two
of them. What the clocks, the network, the random generator and the stop flag do is
the `Moment` of the action. The trace says what the thread did. Sleeping changes
nothing and is left out.
-/
import Bowst.Lib.Machine
import Bowst.Telemetry.Histogram
import Bowst.Venue.Backoff
import Bowst.Venue.Session
import Bowst.Venue.WsClient

namespace Bowst.Venue

open Bowst.Core Bowst.Lib Bowst.Telemetry

/-! ## The state -/

/-- The session settings that `run` reads. -/
structure RunConfig where
  reader : ReaderConfig
  staleAfter : Duration
  maxConnectionAge : Duration
  reconnectInitial : Duration
  reconnectMax : Duration
  healthyAfter : Duration
  reportEvery : Duration
  initial_le : reconnectInitial ≤ durationMax
  max_le : reconnectMax ≤ durationMax
  deriving Repr

/-- Periodic telemetry from the session. -/
structure MdReport where
  interval : Duration
  stats : MdStats
  latency : LatencySummary
  latencyTotal : LatencySummary
  deriving Repr

/-- What other crates and the language supply: SHA-1, and `Debug` texts. -/
structure Supplied where
  sha1 : Bytes → Vector UInt8 20
  debugText : MdStatus → Bytes
  debugDuration : Duration → String

/-- A connection that `stream` works on. `started` is when it was opened. -/
structure Connection where
  client : WsClient
  started : Instant
  connectedAt : Instant
  lastActivity : Instant
  deriving Repr

/-- Where in the body of the loop of `stream`. -/
inductive Point where
  | top
  | drain
  | collect
  | request
  | schedule
  | report
  | check
  deriving DecidableEq, Repr

/-- Where in `run`. -/
inductive Place where
  /-- At the condition of the loop. -/
  | connecting
  /-- Before `WsClient::connect`. -/
  | opening
  | streaming (c : Connection) (point : Point)
  /-- Behind `stream`, before `close`. -/
  | leaving (c : Connection) (reason : String)
  /-- Before `take_all_down`. -/
  | down (reason : String)
  /-- Before the status. -/
  | disconnected (reason : String)
  /-- Behind the status. -/
  | waiting
  | stopped
  deriving Repr

/-- The session on its thread, with the fields of it that only `run` uses. -/
structure MdThread where
  config : RunConfig
  streamUrl : Url
  session : MdSession
  backoff : Backoff
  intervalLatency : LatencyHistogram
  totalLatency : LatencyHistogram
  reportStarted : Instant
  reports : List MdReport
  place : Place

/-- What one action of the thread reads. -/
structure Moment where
  stop : Bool
  clock : Readings
  after : Instant
  /-- How long a message took to decode and apply. -/
  nanos : UInt64
  opening : Opening
  sending : WsClient.Sending
  random : UInt32

/-- One thing that the thread did. -/
inductive Deed where
  | opened (opening : Opening)
  | session (step : SessionStep)
  | event (event : WsEvent)
  | replied (payload : Bytes) (sending : WsClient.Sending)
  /-- A connection ended, on which `wire` was written. -/
  | closed (wire : Bytes)
  | timed (nanos : UInt64)
  | reported (report : MdReport)
  | waited (delay : Duration)

/-- An action of one of the two threads. -/
inductive Action where
  | act (m : Moment)
  | takeJob
  | finishJob (response : Except SnapshotFailure Bytes) (fetchedAt : WallTime)

namespace MdThread

/-- Before `run`. -/
def start (config : RunConfig) (streamUrl : Url) (session : MdSession) (now : Instant) :
    MdThread where
  config
  streamUrl
  session
  backoff := .new config.reconnectInitial config.reconnectMax config.initial_le config.max_le
  intervalLatency := .new
  totalLatency := .new
  reportStarted := now
  reports := []
  place := .connecting

def go (t : MdThread) (place : Place) : MdThread := { t with place }

section Program

variable (supplied : Supplied)

/-! ## One pass of `stream` -/

/-- A data message: the session applies it, and the time that took is recorded. -/
def message (t : MdThread) (c : Connection) (bytes : Bytes) (m : Moment) : MdThread :=
  let next : Place :=
    match (t.session.books.apply bytes).1 with
    | .ok _ => .streaming c .drain
    | .error reason => .leaving c reason
  { t with
    session := t.session.message bytes m.clock
    intervalLatency := t.intervalLatency.record m.nanos
    totalLatency := t.totalLatency.record m.nanos
    place := next }

/-- `server closed the connection`, with the `Debug` text of its code. -/
def closeText : Option Nat → String
  | none => "server closed the connection (code None)"
  | some code => s!"server closed the connection (code Some({code}))"

/-- What the loop does with an event. -/
def onEvent (t : MdThread) (c : Connection) (event : WsEvent) (m : Moment) :
    MdThread × List Deed :=
  match event with
  | .text bytes | .binary bytes =>
      (t.message c bytes m, [.event event, .session (.message bytes m.clock), .timed m.nanos])
  | .ping payload =>
      let pong := payload.take (min payload.length 125)
      match c.client.send .pong pong m.sending with
      | (.error err, client) =>
          (t.go (.leaving { c with client } err.toText), [.event event, .replied pong m.sending])
      | (.ok (), client) =>
          (t.go (.streaming { c with client } .drain), [.event event, .replied pong m.sending])
  | .pong _ => (t.go (.streaming c .drain), [.event event])
  | .close code _ => (t.go (.leaving c (closeText code)), [.event event])

/-- One turn of the loop that drains everything already received. -/
def drain (t : MdThread) (c : Connection) (m : Moment) : MdThread × List Deed :=
  match c.client.nextEvent with
  | (.error err, client) => (t.go (.leaving { c with client } err.toText), [])
  | (.ok none, client) => (t.go (.streaming { c with client } .collect), [])
  | (.ok (some event), client) =>
      t.onEvent { c with client, lastActivity := m.clock.now } event m

/-- One turn of the loop of `collect_snapshots`. -/
def collect (t : MdThread) (c : Connection) (m : Moment) : MdThread × List Deed :=
  if t.session.results = [] then (t.go (.streaming c .request), [])
  else
    ({ t with session := t.session.collectSnapshot supplied.debugText m.clock },
      [.session (.collectSnapshot m.clock)])

/-- Sends the handler a report when one is due. -/
def maybeReport (t : MdThread) (m : Moment) : MdThread × List Deed :=
  let elapsed := m.clock.now - t.reportStarted
  if elapsed < t.config.reportEvery then (t, [])
  else
    let report : MdReport :=
      ⟨elapsed, t.session.books.stats, t.intervalLatency.summary, t.totalLatency.summary⟩
    ({ t with
      intervalLatency := t.intervalLatency.reset
      reportStarted := m.after
      reports := t.reports ++ [report] }, [.reported report])

/-- The end of the loop body: the limits of the connection, and one read of the socket. -/
def check (t : MdThread) (c : Connection) (m : Moment) : MdThread :=
  if m.clock.now - c.lastActivity ≥ t.config.staleAfter then
    t.go (.leaving c s!"no data for {supplied.debugDuration t.config.staleAfter}")
  else if m.clock.now - c.connectedAt ≥ t.config.maxConnectionAge then
    t.go (.leaving c "connection reached its maximum age")
  else
    match c.client.fill with
    | (.error err, client) => t.go (.leaving { c with client } err.toText)
    | (.ok n, client) =>
        if n = 0 then t.go (.streaming { c with client } .top)
        else t.go (.streaming { c with client, lastActivity := m.after } .top)

/-- The loop of `stream`, from a point to the next. -/
def stream (t : MdThread) (c : Connection) (m : Moment) : Point → MdThread × List Deed
  | .top => (t.go (if m.stop then .leaving c "stopped" else .streaming c .drain), [])
  | .drain => t.drain c m
  | .collect => t.collect supplied c m
  | .request =>
      ({ t with
        session := t.session.requestSnapshots m.clock.now
        place := .streaming c .schedule }, [.session (.requestSnapshots m.clock.now)])
  | .schedule =>
      ({ t with
        session := t.session.scheduleVerification m.clock m.after
        place := .streaming c .report }, [.session (.scheduleVerification m.clock m.after)])
  | .report => ((t.maybeReport m).1.go (.streaming c .check), (t.maybeReport m).2)
  | .check => (t.check supplied c m, [])

/-! ## The program -/

/-- Opens a connection. -/
def connect (t : MdThread) (m : Moment) : MdThread × List Deed :=
  match WsClient.connect supplied.sha1 t.streamUrl t.config.reader m.opening with
  | .error err => (t.go (.down err.toText), [])
  | .ok client =>
      ({ t with
        session := t.session.countConnection.status supplied.debugText .connected m.clock
        place := .streaming ⟨client, m.clock.now, m.after, m.after⟩ .top },
        [.opened m.opening, .session (.connected m.clock)])

/-- Behind `stream`. -/
def leave (t : MdThread) (c : Connection) (reason : String) (m : Moment) : MdThread × List Deed :=
  let healthy := decide (m.clock.now - c.started ≥ t.config.healthyAfter)
  ({ t with
    backoff := if healthy then t.backoff.reset else t.backoff
    place := .down reason }, [.closed (c.client.close m.sending).wire])

/-- `run`, from a place to the next. -/
def run (t : MdThread) (m : Moment) : MdThread × List Deed :=
  match t.place with
  | .connecting =>
      if m.stop then (t.go .stopped, [])
      else
        ({ t with
          session := t.session.status supplied.debugText .connecting m.clock
          place := .opening }, [.session (.connecting m.clock)])
  | .opening => t.connect supplied m
  | .streaming c point => t.stream supplied c m point
  | .leaving c reason => t.leave c reason m
  | .down reason =>
      ({ t with session := t.session.takeAllDown m.clock, place := .disconnected reason },
        [.session (.takeAllDown m.clock)])
  | .disconnected reason =>
      ({ t with
        session := t.session.status supplied.debugText (.disconnected reason) m.clock
        place := .waiting }, [.session (.disconnected reason m.clock)])
  | .waiting =>
      if m.stop then (t.go .stopped, [])
      else
        ({ t with backoff := (t.backoff.nextDelay m.random).2, place := .connecting },
          [.waited (t.backoff.nextDelay m.random).1])
  | .stopped => (t, [])

/-- An action of either thread. -/
def act (t : MdThread) : Action → MdThread × List Deed
  | .act m => t.run supplied m
  | .takeJob => ({ t with session := t.session.takeJob }, [.session .takeJob])
  | .finishJob response fetchedAt =>
      ({ t with session := t.session.finishJob response fetchedAt },
        [.session (.finishJob response fetchedAt)])

end Program

end MdThread

end Bowst.Venue
