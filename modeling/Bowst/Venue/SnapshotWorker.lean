/-
Bowst.Venue.SnapshotWorker — the snapshot thread
(`SnapshotWorker::run` and `fetch` of `bowst-venue/src/binance/md.rs`).

Time is a part of the state: an action says how long it took, and a sleep takes at
least as long as it was asked to. The two clocks show the same time, the monotonic one
since it was made. What `http::get` returns is an argument of the action that calls it.
-/
import Bowst.Lib.Machine
import Bowst.Venue.RateLimit
import Bowst.Venue.Rest
import Bowst.Venue.Session

namespace Bowst.Venue

open Bowst.Core Bowst.Lib

/-- Where in the loop of `run`. -/
inductive WorkerPlace where
  /-- At `jobs.recv`. -/
  | idle
  /-- In `wait_for_budget`. -/
  | budget (job : SnapshotJob)
  /-- In `fetch`. -/
  | fetching (job : SnapshotJob)
  deriving DecidableEq, Repr

/-- The snapshot thread. `time` is now, and `origin` when its clock was made. -/
structure SnapshotWorker where
  restUrl : Bytes
  limit : UInt32
  origin : Instant
  time : Instant
  budget : TokenBucket
  pausedUntil : Option Instant
  place : WorkerPlace
  deriving Repr

/-- What the thread did, and when. -/
inductive WorkerDeed where
  | call (call : BucketCall)
  /-- The budget let a request through. -/
  | requested (job : SnapshotJob) (time : Instant)
  /-- A job is done, with what the venue answered, if it did. -/
  | answered (response : Option Response) (result : SnapshotResult) (time : Instant)

inductive WorkerAction where
  | pass (time : Duration)
  /-- A job is received, and the pause waited out. -/
  | receive (job : SnapshotJob) (late : Duration)
  /-- One turn of the loop of `wait_for_budget`. -/
  | tryBudget (late : Duration)
  | fetch (took : Duration) (got : Except NetError (Response × Bytes)) (fetchedAt : WallTime)

namespace SnapshotWorker

/-- One minute. -/
def minute : Duration := 60 * 1000000000

/-- Before the loop. -/
def start (restUrl : Bytes) (limit : UInt32) (weightPerMinute : UInt64) (origin : Instant)
    (late : Duration) : SnapshotWorker where
  restUrl
  limit
  origin
  time := origin + late
  budget := .new weightPerMinute minute (clampU64 late)
  pausedUntil := none
  place := .idle

/-- What the monotonic clock shows. -/
def mono (w : SnapshotWorker) : UInt64 := clampU64 (w.time - w.origin)

/-- `thread::sleep`. -/
def sleep (w : SnapshotWorker) (wait late : Duration) : SnapshotWorker :=
  { w with time := w.time + wait + late }

/-- The end of the pause, if there is one. -/
def waitOut (w : SnapshotWorker) (late : Duration) : SnapshotWorker :=
  match w.pausedUntil with
  | none => w
  | some paused => { w.sleep (paused - w.time) late with pausedUntil := none }

/-- One turn of the loop of `wait_for_budget`. A cost above the capacity can never be met,
and goes through. -/
def tryBudget (w : SnapshotWorker) (job : SnapshotJob) (late : Duration) :
    SnapshotWorker × List WorkerDeed :=
  let call := BucketCall.tryTake (depthWeight w.limit) w.mono
  match w.budget.tryTake (depthWeight w.limit) w.mono with
  | (.ok (), budget) =>
      ({ w with budget, place := .fetching job }, [.call call, .requested job w.time])
  | (.error wait, budget) =>
      if wait = durationMax then
        ({ w with budget, place := .fetching job }, [.call call, .requested job w.time])
      else ({ w with budget }.sleep wait late, [.call call])

/-- The failure of a response that is not good. 429: rate limited. 418: banned for
ignoring 429s. -/
def refusal (response : Response) : Except SnapshotFailure Unit :=
  match requireOk response with
  | .ok _ => .ok ()
  | .error err =>
      match err with
      | .status code retryAfterSecs =>
          if code = 418 ∨ code = 429 then
            .error ⟨err.toText, some (retryAfterSecs.getD 60 * 1000000000)⟩
          else .error ⟨err.toText, none⟩
      | _ => .error ⟨err.toText, none⟩

/-- The body of a good response, or the failure. -/
def bodyOf (w : SnapshotWorker) (job : SnapshotJob) (got : Except NetError (Response × Bytes)) :
    Except SnapshotFailure Bytes :=
  match depthUrl w.restUrl job.instrument.symbol w.limit with
  | .error err => .error ⟨err.toText, none⟩
  | .ok _ =>
      match got with
      | .error err => .error ⟨err.toText, none⟩
      | .ok (response, body) => (refusal response).map fun _ => body

/-- What the venue answered, if it was asked. -/
def answerOf (w : SnapshotWorker) (job : SnapshotJob)
    (got : Except NetError (Response × Bytes)) : Option Response :=
  match depthUrl w.restUrl job.instrument.symbol w.limit, got with
  | .ok _, .ok (response, _) => some response
  | _, _ => none

/-- What `fetch` shows the budget: what the venue reports as spent. -/
def observed (w : SnapshotWorker) (response : Option Response) : Option BucketCall :=
  (response.bind Response.usedWeight1m).map fun used => .observeUsed (UInt64.ofNat used) w.mono

/-- The rest of the loop body behind `wait_for_budget`. -/
def fetchJob (w : SnapshotWorker) (job : SnapshotJob) (took : Duration)
    (got : Except NetError (Response × Bytes)) (fetchedAt : WallTime) :
    SnapshotWorker × List WorkerDeed :=
  let response := w.answerOf job got
  let calls := (w.observed response).toList
  let outcome := fetch w.limit.toNat job.instrument (w.bodyOf job got) fetchedAt
  let time := w.time + took
  -- Rate limited by the venue: every request is paused, not just this instrument's.
  let pausedUntil :=
    match outcome with
    | .error ⟨_, some wait⟩ => some (later time wait)
    | _ => w.pausedUntil
  ({ w with budget := calls.foldl BucketCall.run w.budget, time, pausedUntil, place := .idle },
    calls.map .call ++
      [.answered response ⟨job.instrument.id, job.generation, job.purpose, outcome⟩ time])

/-- An action of the thread; one that its place does not have changes nothing. -/
def act (w : SnapshotWorker) : WorkerAction → SnapshotWorker × List WorkerDeed
  | .pass d => ({ w with time := w.time + d }, [])
  | .receive job late =>
      match w.place with
      | .idle => ({ w.waitOut late with place := .budget job }, [])
      | _ => (w, [])
  | .tryBudget late =>
      match w.place with
      | .budget job => w.tryBudget job late
      | _ => (w, [])
  | .fetch took got fetchedAt =>
      match w.place with
      | .fetching job => w.fetchJob job took got fetchedAt
      | _ => (w, [])

/-- A run of the thread. -/
def runs (w : SnapshotWorker) (actions : List WorkerAction) : SnapshotWorker × List WorkerDeed :=
  runMachine act w actions

end SnapshotWorker

end Bowst.Venue
