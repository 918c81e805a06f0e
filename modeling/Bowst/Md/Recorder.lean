/-
Bowst.Md.Recorder — the handler of `bowst-md`, its board, and the watch loop over it
(`bin/bowst-md/src/main.rs`).

The board is behind a lock that each step holds throughout, so a step is one here. What
is printed of the board is left out, but for the rates.
-/
import Bowst.Md.Metrics

namespace Bowst.Md

open Bowst.Core Bowst.Journal Bowst.L2 Bowst.Telemetry Bowst.Venue
open Std (TreeMap)

structure Top where
  bid : Option (Price × Qty)
  ask : Option (Price × Qty)
  depth : Nat × Nat
  updates : Nat
  eventTime : WallTime
  deriving DecidableEq, Repr

def Top.default : Top := ⟨none, none, (0, 0), 0, ⟨0⟩⟩

/-- Latest top of book per instrument, shared with the printing thread. -/
structure Board where
  tops : TreeMap UInt32 Top
  live : TreeMap UInt32 Bool
  metrics : MetricsState

def Board.default : Board := ⟨∅, ∅, .default⟩

/-- Price and quantity of a level. -/
def pair (level : Level) : Price × Qty := (level.price, level.qty)

namespace Board

/-- The top behind a book. -/
def shown (top : Top) (book : Book) (eventTime : WallTime) : Top where
  bid := book.bestBid.map pair
  ask := book.bestAsk.map pair
  depth := ((book.side .buy).levels.length, (book.side .sell).levels.length)
  updates := saturatingAdd top.updates 1
  eventTime

def onBook (board : Board) (instrument : InstrumentId) (book : Book) (eventTime : WallTime) :
    Board :=
  let top := board.tops.getD instrument.value .default
  { board with tops := board.tops.insert instrument.value (shown top book eventTime) }

def setLive (board : Board) (instrument : InstrumentId) (live : Bool) : Board :=
  { board with live := board.live.insert instrument.value live }

def onStatus (board : Board) : MdStatus → Board
  | .instrumentLive instrument => board.setLive instrument true
  | .instrumentDown instrument _ => board.setLive instrument false
  | .snapshotFailed _ _ => board
  | .disconnected _ =>
      { board with
        live := board.live.map fun _ _ => false
        metrics := { board.metrics with connected := false } }
  | .connecting => board
  | .connected => { board with metrics := { board.metrics with connected := true } }

def onCall (board : Board) : HandlerCall → Board
  | .onBook instrument book eventTime => board.onBook instrument book eventTime
  | .onStatus status => board.onStatus status

/-- Whether the book of an instrument may be used. -/
def isLive (board : Board) (instrument : InstrumentId) : Bool :=
  board.live.getD instrument.value false

end Board

/-- The handler. `messages` is what was printed of each report. -/
structure Recorder where
  board : Board
  reportedMessages : Nat
  messages : List Nat

def Recorder.onReport (r : Recorder) (report : MdReport) (wall : WallTime) : Recorder where
  board := { r.board with metrics := { r.board.metrics with report := some (report, wall) } }
  reportedMessages := report.stats.messages
  messages := r.messages ++ [report.stats.messages - r.reportedMessages]

/-- The state of `watch`. `rates` is what was printed of each instrument. -/
structure Watch where
  previous : TreeMap UInt32 Nat
  everLive : TreeMap UInt32 Bool
  rates : List (InstrumentId × Nat)

namespace Watch

def start : Watch := ⟨∅, ∅, []⟩

/-- The loop body of `print_board`. -/
def printRate (board : Board) (w : Watch) (instrument : Instrument) : Watch :=
  let top := board.tops.getD instrument.id.value .default
  let before := w.previous.getD instrument.id.value 0
  { w with
    previous := w.previous.insert instrument.id.value top.updates
    rates := w.rates ++ [(instrument.id, top.updates - before)] }

def printBoard (w : Watch) (board : Board) (instruments : InstrumentTable) : Watch :=
  instruments.instruments.foldl (printRate board) w

/-- What `watch` adds to the instruments that were ever live. -/
def noteLive (ever : TreeMap UInt32 Bool) (id : UInt32) (live : Bool) : TreeMap UInt32 Bool :=
  if live then ever.insert id true else ever

end Watch

/-- What `watch` does to the state of the metrics, when journaling. -/
def MetricsState.noteHealth (metrics : MetricsState) : Option JournalHealth → MetricsState
  | none => metrics
  | some health =>
      let metrics := { metrics with journal := some health }
      match health with
      | .degraded dropped => { metrics with journalDropped := dropped }
      | _ => metrics

/-- The tool: the handler on the market-data thread, and `watch`. -/
structure Tool where
  instruments : InstrumentTable
  recorder : Recorder
  watch : Watch

/-- What the two threads of the tool do to the board. -/
inductive ToolStep where
  | call (call : HandlerCall)
  | report (report : MdReport) (wall : WallTime)
  | tick (health : Option JournalHealth)

namespace Tool

def start (instruments : InstrumentTable) (started : WallTime) : Tool where
  instruments
  recorder := ⟨{ Board.default with metrics := { MetricsState.default with started } }, 0, []⟩
  watch := .start

def board (tool : Tool) : Board := tool.recorder.board

/-- The loop body of `watch`. -/
def tick (tool : Tool) (health : Option JournalHealth) : Tool :=
  let board := { tool.board with metrics := tool.board.metrics.noteHealth health }
  let watch := tool.watch.printBoard board tool.instruments
  { tool with
    recorder := { tool.recorder with board }
    watch := { watch with everLive := board.live.foldl Watch.noteLive watch.everLive } }

def step (tool : Tool) : ToolStep → Tool
  | .call call =>
      { tool with recorder := { tool.recorder with board := tool.board.onCall call } }
  | .report report wall => { tool with recorder := tool.recorder.onReport report wall }
  | .tick health => tool.tick health

def run (tool : Tool) (steps : List ToolStep) : Tool := steps.foldl step tool

end Tool

end Bowst.Md
