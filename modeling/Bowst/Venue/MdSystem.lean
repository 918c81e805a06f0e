/-
Bowst.Venue.MdSystem — the market-data thread and the snapshot thread together
(`MdSession` and `SnapshotWorker` of `bowst-venue/src/binance/md.rs`).

The two programs share the two channels that `MdSession::new` makes. The snapshot
thread takes the oldest job, or waits while there is none, and sends one result for it.
-/
import Bowst.Venue.MdThread
import Bowst.Venue.SnapshotWorker

namespace Bowst.Venue

open Bowst.Core Bowst.Lib

/-- Both threads. The channels between them are in the session. -/
structure MdSystem where
  thread : MdThread
  worker : SnapshotWorker

/-- An action of either thread. -/
inductive SystemAction where
  | act (m : Moment)
  | pass (time : Duration)
  | receive (late : Duration)
  | tryBudget (late : Duration)
  | fetch (took : Duration) (got : Except NetError (Response × Bytes)) (fetchedAt : WallTime)

inductive SystemDeed where
  | thread (deed : Deed)
  | worker (deed : WorkerDeed)

namespace MdSystem

/-- What `new` and `run` start. -/
def start (config : RunConfig) (streamUrl : Url) (session : MdSession) (now : Instant)
    (restUrl : Bytes) (weightPerMinute : UInt64) (origin : Instant) (late : Duration) :
    MdSystem where
  thread := .start config streamUrl session now
  worker := .start restUrl session.config.snapshotLimit weightPerMinute origin late

section Actions

variable (supplied : Supplied)

/-- An action of the market-data thread. -/
def threadAct (sys : MdSystem) (a : Action) : MdSystem × List SystemDeed :=
  let (thread, deeds) := sys.thread.act supplied a
  ({ sys with thread }, deeds.map .thread)

/-- An action of the snapshot thread that leaves the channels alone. -/
def workerAct (sys : MdSystem) (a : WorkerAction) : MdSystem × List SystemDeed :=
  let (worker, deeds) := sys.worker.act a
  ({ sys with worker }, deeds.map .worker)

/-- An action of the snapshot thread on a channel. -/
def channelAct (sys : MdSystem) (a : Action) (b : WorkerAction) : MdSystem × List SystemDeed :=
  let (sys, deeds) := sys.threadAct supplied a
  let (sys, deeds') := sys.workerAct b
  (sys, deeds ++ deeds')

def act (sys : MdSystem) : SystemAction → MdSystem × List SystemDeed
  | .act m => sys.threadAct supplied (.act m)
  | .pass time => sys.workerAct (.pass time)
  | .receive late =>
      match sys.worker.place, sys.thread.session.jobs with
      | .idle, job :: _ => sys.channelAct supplied .takeJob (.receive job late)
      | _, _ => (sys, [])
  | .tryBudget late => sys.workerAct (.tryBudget late)
  | .fetch took got fetchedAt =>
      match sys.worker.place with
      | .fetching job =>
          sys.channelAct supplied (.finishJob (sys.worker.bodyOf job got) fetchedAt)
            (.fetch took got fetchedAt)
      | _ => (sys, [])

end Actions

/-- A run of both threads. -/
def runs (supplied : Supplied) (sys : MdSystem) (actions : List SystemAction) :
    MdSystem × List SystemDeed :=
  runMachine (act supplied) sys actions

end MdSystem

end Bowst.Venue
