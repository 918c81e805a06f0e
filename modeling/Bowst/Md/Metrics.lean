/-
Bowst.Md.Metrics — the metrics of `bowst-md` (`bin/bowst-md/src/metrics.rs`), rendered on
each scrape from state the tool already keeps.
-/
import Bowst.Journal.FileSink
import Bowst.Telemetry.Exposition
import Bowst.Venue.MdThread

namespace Bowst.Md

open Bowst.Core Bowst.Journal Bowst.Telemetry Bowst.Venue

/-- `CARGO_PKG_VERSION`. -/
def version : Text := "0.1.0".toList

/-- Label value identifying the venue on every market-data metric. -/
def venueLabel : Text × Text := ("venue".toList, "binance".toList)

/-- Session state the metrics are rendered from. -/
structure MetricsState where
  started : WallTime
  connected : Bool
  report : Option (MdReport × WallTime)
  journal : Option JournalHealth
  journalDropped : Nat
  deriving Repr

def MetricsState.default : MetricsState := ⟨⟨0⟩, false, none, none, 0⟩

/-- `Symbol::as_str`, in characters. -/
def symbolText (symbol : Symbol) : Text := symbol.text.map fun byte => Char.ofNat byte.toNat

/-- `u64::from` of a flag. -/
def flag (b : Bool) : Value := .int (if b then 1 else 0)

def process (e : Exposition) (state : MetricsState) : Exposition :=
  let e := e.family "bowst_build_info".toList .gauge "Always 1; labels identify the build.".toList
  let e := e.sample "bowst_build_info".toList [("version".toList, version)] (.int 1)
  let e := e.family "bowst_start_time_seconds".toList .gauge
    "Unix time the process started.".toList
  e.sample "bowst_start_time_seconds".toList [] (.nanos state.started.nanos.toNat)

def connection (e : Exposition) (state : MetricsState) (instruments : InstrumentTable)
    (live : InstrumentId → Bool) : Exposition :=
  let e := e.family "bowst_md_connected".toList .gauge
    "1 while the market-data WebSocket is connected.".toList
  let e := e.sample "bowst_md_connected".toList [venueLabel] (flag state.connected)
  let e := e.family "bowst_md_instrument_live".toList .gauge
    "1 while the instrument's book is live and may be used; 0 while it is down.".toList
  instruments.instruments.foldl
    (fun e instrument =>
      e.sample "bowst_md_instrument_live".toList
        [venueLabel, ("symbol".toList, symbolText instrument.symbol)] (flag (live instrument.id)))
    e

/-- The counters of a session, with the names and help texts of their metrics. -/
def counters (stats : MdStats) : List (String × String × Nat) :=
  [("bowst_md_messages_total", "Market-data messages received.", stats.messages),
    ("bowst_md_deltas_applied_total", "Depth updates applied to live books.", stats.deltasApplied),
    ("bowst_md_book_invalidations_total",
      "Books taken down by a gap, invalid data, a crossed book or a verification mismatch.",
      stats.bookInvalidations),
    ("bowst_md_connections_total", "WebSocket connections opened.", stats.connections),
    ("bowst_md_snapshots_requested_total",
      "REST depth snapshots requested (resyncs and verifications).", stats.snapshotsRequested),
    ("bowst_md_snapshots_applied_total", "Snapshots that brought a book live.",
      stats.snapshotsApplied)]

/-- The verifications of a session, by result. -/
def verifications (stats : MdStats) : List (String × Nat) :=
  [("passed", stats.verificationsPassed), ("mismatch", stats.verificationMismatches),
    ("abandoned", stats.verificationsAbandoned)]

def session (e : Exposition) (state : MetricsState) : Exposition :=
  let stats := state.report.elim .zero fun (report, _) => report.stats
  let e := (counters stats).foldl
    (fun e (name, help, value) =>
      (e.family name.toList .counter help.toList).sample name.toList [venueLabel] (.int value))
    e
  let e := e.family "bowst_md_verifications_total".toList .counter
    "Book verifications against fresh snapshots, by result.".toList
  let e := (verifications stats).foldl
    (fun e (result, value) =>
      e.sample "bowst_md_verifications_total".toList
        [venueLabel, ("result".toList, result.toList)] (.int value))
    e
  let e :=
    match state.report with
    | none => e
    | some (report, _) =>
        let e := e.family "bowst_md_apply_latency_seconds".toList .summary
          ("Time to decode one message and apply it to its book. " ++
            "Quantiles cover the last report interval; sum and count cover the whole run.").toList
        e.summary "bowst_md_apply_latency_seconds".toList [venueLabel] report.latency
          report.latencyTotal
  let e := e.family "bowst_md_last_report_timestamp_seconds".toList .gauge
    ("Unix time of the latest session report (every 10 s); " ++
      "stops advancing if the market-data thread stalls.").toList
  e.sample "bowst_md_last_report_timestamp_seconds".toList [venueLabel]
    (.nanos (state.report.elim 0 fun (_, time) => time.nanos.toNat))

/-- The name of a state of the journal. -/
def healthName : JournalHealth → String
  | .ok => "ok"
  | .degraded _ => "degraded"
  | .failed => "failed"

def journal (e : Exposition) (state : MetricsState) : Exposition :=
  match state.journal with
  | none => e
  | some health =>
      let e := e.family "bowst_journal_state".toList .gauge
        ("1 for the journal's current state: ok, degraded (records dropped) or failed " ++
          "(not persisting).").toList
      let e := ["ok", "degraded", "failed"].foldl
        (fun e name =>
          e.sample "bowst_journal_state".toList [("state".toList, name.toList)]
            (flag (name = healthName health)))
        e
      let e := e.family "bowst_journal_dropped_records_total".toList .counter
        "Records the journal could not accept.".toList
      e.sample "bowst_journal_dropped_records_total".toList [] (.int state.journalDropped)

/-- Every metric, before the text is finished. `live` gives each instrument's book status. -/
def rendered (state : MetricsState) (instruments : InstrumentTable) (live : InstrumentId → Bool) :
    Exposition :=
  journal (session (connection (process .new state) state instruments live) state) state

/-- Renders every metric. -/
def render (state : MetricsState) (instruments : InstrumentTable) (live : InstrumentId → Bool) :
    Text :=
  (rendered state instruments live).finish

end Bowst.Md
