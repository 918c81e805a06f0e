/-
Bowst.Venue.MdSystemTheorems — the two threads run together.

  §1 Parts  — a run of both is a run of each.
  §2 Queues — what a step of the session does to the jobs, the job in work and the results.
  §3 Jobs   — every job that is sent is received once, in order.
  §4 Runs   — and so is every result.
-/
import Bowst.Venue.MdSystem
import Bowst.Venue.MdThreadTheorems
import Bowst.Venue.SnapshotWorkerTheorems

namespace Bowst.Venue

open Bowst.Core Bowst.Lib

/-! ## §1 Parts -/

def SystemDeed.thread? : SystemDeed → Option Deed
  | .thread deed => some deed
  | .worker _ => none

def SystemDeed.worker? : SystemDeed → Option WorkerDeed
  | .thread _ => none
  | .worker deed => some deed

theorem filterMap_thread (deeds : List Deed) (deeds' : List WorkerDeed) :
    (deeds.map SystemDeed.thread ++ deeds'.map SystemDeed.worker).filterMap SystemDeed.thread? =
      deeds := by
  rw [List.filterMap_append, List.filterMap_map, List.filterMap_map]
  show deeds.filterMap some ++ deeds'.filterMap (fun _ => none) = deeds
  simp

theorem filterMap_worker (deeds : List Deed) (deeds' : List WorkerDeed) :
    (deeds.map SystemDeed.thread ++ deeds'.map SystemDeed.worker).filterMap SystemDeed.worker? =
      deeds' := by
  rw [List.filterMap_append, List.filterMap_map, List.filterMap_map]
  show deeds.filterMap (fun _ => none) ++ deeds'.filterMap some = deeds'
  simp

namespace MdSystem

variable (supplied : Supplied)

/-- Which action of each thread an action of both is, if any. -/
inductive Acts (sys : MdSystem) : SystemAction → Option Action → Option WorkerAction → Prop
  | thread (m : Moment) : Acts sys (.act m) (some (.act m)) none
  | pass (time : Duration) : Acts sys (.pass time) none (some (.pass time))
  | tryBudget (late : Duration) : Acts sys (.tryBudget late) none (some (.tryBudget late))
  | receive {job : SnapshotJob} {jobs : List SnapshotJob} (late : Duration)
      (hplace : sys.worker.place = .idle) (hjobs : sys.thread.session.jobs = job :: jobs) :
      Acts sys (.receive late) (some .takeJob) (some (.receive job late))
  | fetch {job : SnapshotJob} (took : Duration) (got : Except NetError (Response × Bytes))
      (fetchedAt : WallTime) (hplace : sys.worker.place = .fetching job) :
      Acts sys (.fetch took got fetchedAt)
        (some (.finishJob (sys.worker.bodyOf job got) fetchedAt)) (some (.fetch took got fetchedAt))
  | still (a : SystemAction) : Acts sys a none none

/-- A thread after perhaps an action, and its deeds. -/
def perhaps {σ ι ω : Type} (act : σ → ι → σ × List ω) (s : σ) (a : Option ι) : σ × List ω :=
  a.elim (s, []) (act s)

theorem act_acts (sys : MdSystem) (a : SystemAction) : ∃ a₁ a₂, Acts sys a a₁ a₂ ∧
    sys.act supplied a =
      (⟨(perhaps (MdThread.act supplied) sys.thread a₁).1,
          (perhaps SnapshotWorker.act sys.worker a₂).1⟩,
        (perhaps (MdThread.act supplied) sys.thread a₁).2.map .thread ++
          (perhaps SnapshotWorker.act sys.worker a₂).2.map .worker) := by
  cases a with
  | act m =>
      refine ⟨_, _, .thread m, ?_⟩
      simp [act, threadAct, perhaps]
  | pass time =>
      refine ⟨_, _, .pass time, ?_⟩
      simp [act, workerAct, perhaps]
  | tryBudget late =>
      refine ⟨_, _, .tryBudget late, ?_⟩
      simp [act, workerAct, perhaps]
  | receive late =>
      simp only [act]
      split
      · rename_i job jobs hplace hjobs
        exact ⟨_, _, .receive late hplace hjobs, rfl⟩
      · exact ⟨_, _, .still _, rfl⟩
  | fetch took got fetchedAt =>
      simp only [act]
      split
      · rename_i job hplace
        exact ⟨_, _, .fetch took got fetchedAt hplace, rfl⟩
      · exact ⟨_, _, .still _, rfl⟩

/-- Perhaps an action is a run. -/
theorem runMachine_perhaps {σ ι ω : Type} (act : σ → ι → σ × List ω) (s : σ) (a : Option ι) :
    runMachine act s a.toList = perhaps act s a := by
  cases a <;> simp [perhaps]

theorem runs_thread (sys : MdSystem) (actions : List SystemAction) : ∃ own,
    sys.thread.runs supplied own = ((sys.runs supplied actions).1.thread,
      (sys.runs supplied actions).2.filterMap SystemDeed.thread?) := by
  refine runMachine_projects (fun sys a => ?_) sys actions
  obtain ⟨a₁, a₂, -, heq⟩ := act_acts supplied sys a
  refine ⟨a₁.toList, ?_⟩
  rw [heq, runMachine_perhaps, filterMap_thread]

end MdSystem

/-! ## §2 Queues -/

/-- What the snapshot thread has to do with is left alone, but for new jobs. -/
structure Spares (s s' : MdSession) : Prop where
  config : s'.config = s.config
  jobs : s.jobs <+: s'.jobs
  working : s'.working = s.working
  results : s'.results = s.results

section Spares

variable {s s' s'' : MdSession}

theorem Spares.refl (s : MdSession) : Spares s s := ⟨rfl, List.prefix_rfl, rfl, rfl⟩

theorem Spares.trans (h : Spares s s') (h' : Spares s' s'') : Spares s s'' :=
  ⟨h'.config.trans h.config, h.jobs.trans h'.jobs, h'.working.trans h.working,
    h'.results.trans h.results⟩

theorem MdSession.Quiet.spares (h : MdSession.Quiet s s') : Spares s s' :=
  ⟨h.shape.config, h.jobs ▸ List.prefix_rfl, h.working, h.results⟩

theorem spares_requestSnapshots (s : MdSession) (now : Instant) :
    Spares s (s.requestSnapshots now) := by
  have hloop : ∀ (indices : List Nat) (s : MdSession),
      Spares s (indices.foldl (MdSession.requestSnapshot now) s) := by
    intro indices
    induction indices with
    | nil => exact Spares.refl
    | cons index indices ih =>
        intro s
        refine Spares.trans ?_ (ih _)
        unfold MdSession.requestSnapshot
        dsimp only
        split
        · exact .refl s
        · split
          · exact .refl s
          · exact ⟨rfl, List.prefix_append .., rfl, rfl⟩
  exact hloop _ s

theorem spares_verifyNext (s : MdSession) (clock : Readings) (steps : List Nat) :
    Spares s (s.verifyNext clock steps) := by
  induction steps with
  | nil => exact .refl s
  | cons step steps ih =>
      unfold MdSession.verifyNext
      dsimp only
      split
      · exact ih
      · split
        · exact ih
        · exact ⟨rfl, List.prefix_append .., rfl, rfl⟩

theorem spares_scheduleVerification (s : MdSession) (clock : Readings) (after : Instant) :
    Spares s (s.scheduleVerification clock after) := by
  have hstart : ∀ (s : MdSession) (every : Duration),
      Spares s (s.startVerification every clock after) := by
    intro s every
    unfold MdSession.startVerification
    split
    · exact .refl s
    · exact (spares_verifyNext s clock _).trans ⟨rfl, List.prefix_rfl, rfl, rfl⟩
  unfold MdSession.scheduleVerification
  split
  · exact .refl s
  · split
    · exact hstart s _
    · split
      · exact .refl s
      · exact (MdSession.quiet_abandonVerification s).spares.trans (hstart _ _)

/-- The oldest result is collected. -/
theorem spares_collectSnapshot (debugText : MdStatus → Bytes) {result : SnapshotResult}
    {results : List SnapshotResult} (h : s.results = result :: results) (clock : Readings) :
    Spares { s with results } (s.collectSnapshot debugText clock) := by
  unfold MdSession.collectSnapshot
  rw [h]
  dsimp only
  split
  · exact .refl _
  · split
    · exact (MdSession.quiet_applySnapshot debugText _ result clock).1.spares
    · exact (MdSession.quiet_applyVerificationSnapshot _ result clock).spares

end Spares

/-- A step that the market-data thread may take: none of the snapshot thread, and it
collects a result only where there is one. -/
def SessionStep.IsOwn (s : MdSession) : SessionStep → Prop
  | .takeJob | .finishJob _ _ => False
  | .collectSnapshot _ => s.results ≠ []
  | _ => True

def SessionStep.isCollect : SessionStep → Bool
  | .collectSnapshot _ => true
  | _ => false

/-- Such a step leaves the jobs alone that were sent before, and of the results takes at
most the oldest. -/
theorem SessionStep.IsOwn.spares {s : MdSession} {step : SessionStep} (h : step.IsOwn s)
    (debugText : MdStatus → Bytes) :
    Spares { s with results := if step.isCollect then s.results.tail else s.results }
      (step.run debugText s) := by
  cases step with
  | takeJob => exact h.elim
  | finishJob response fetchedAt => exact h.elim
  | collectSnapshot clock =>
      obtain ⟨result, results, hresults⟩ := List.exists_cons_of_ne_nil h
      have hcollected := spares_collectSnapshot debugText hresults clock
      show Spares { s with results := s.results.tail } (s.collectSnapshot debugText clock)
      rw [hresults]
      exact hcollected
  | connecting clock => exact (MdSession.quiet_status debugText s .connecting clock).spares
  | connected clock =>
      exact ((MdSession.quiet_countConnection s).trans
        (MdSession.quiet_status debugText _ .connected clock)).spares
  | message bytes clock => exact (MdSession.quiet_message s bytes clock).spares
  | requestSnapshots now => exact spares_requestSnapshots s now
  | scheduleVerification clock after => exact spares_scheduleVerification s clock after
  | takeAllDown clock =>
      have hdropped := MdSession.quiet_dropVerification { s.record .mdReset none [] clock with
        generation := s.generation + 1, books := s.books.resetAll }
      exact ⟨hdropped.shape.config, hdropped.jobs ▸ List.prefix_rfl, hdropped.working, hdropped.results⟩
  | disconnected reason clock =>
      exact (MdSession.quiet_status debugText s (.disconnected reason) clock).spares

namespace MdThread

variable (supplied : Supplied)

/-- At most one step of the session, which is the thread's own. -/
def OneStep (t : MdThread) (deeds : List Deed) : Prop :=
  stepsOf deeds = [] ∨ ∃ step : SessionStep, stepsOf deeds = [step] ∧ step.IsOwn t.session

theorem stream_oneStep (t : MdThread) (c : Connection) (m : Moment) (point : Point) :
    t.OneStep (t.stream supplied c m point).2 := by
  cases point with
  | top | check => exact .inl rfl
  | request | schedule => exact .inr ⟨_, rfl, trivial⟩
  | report =>
      simp only [stream, maybeReport]
      split_ifs <;> exact .inl rfl
  | collect =>
      simp only [stream, collect]
      split_ifs with hresults
      · exact .inl rfl
      · exact .inr ⟨_, rfl, hresults⟩
  | drain =>
      simp only [stream, drain]
      split
      · exact .inl rfl
      · exact .inl rfl
      · rename_i event client _
        cases event with
        | text bytes | binary bytes => exact .inr ⟨_, rfl, trivial⟩
        | ping payload =>
            simp only [onEvent]
            split <;> exact .inl rfl
        | pong payload | close code reason => exact .inl rfl

theorem run_oneStep (t : MdThread) (m : Moment) : t.OneStep (t.run supplied m).2 := by
  unfold run
  split
  · split_ifs
    · exact .inl rfl
    · exact .inr ⟨_, rfl, trivial⟩
  · unfold connect
    split
    · exact .inl rfl
    · exact .inr ⟨_, rfl, trivial⟩
  · exact stream_oneStep supplied t _ m _
  · exact .inl rfl
  · exact .inr ⟨_, rfl, trivial⟩
  · exact .inr ⟨_, rfl, trivial⟩
  · split_ifs <;> exact .inl rfl
  · exact .inl rfl

end MdThread

/-! ## §3 Jobs -/

/-- The jobs that a step of the session sends: those that it puts behind the queue. -/
def SessionStep.sends (debugText : MdStatus → Bytes) (s : MdSession) (step : SessionStep) :
    List SnapshotJob :=
  (step.run debugText s).jobs.drop s.jobs.length

/-- The jobs that steps send, one after the other. -/
def MdSession.sent (debugText : MdStatus → Bytes) (s : MdSession) :
    List SessionStep → List SnapshotJob
  | [] => []
  | step :: steps => step.sends debugText s ++ (step.run debugText s).sent debugText steps

theorem MdSession.sent_append (debugText : MdStatus → Bytes) (steps' : List SessionStep) :
    ∀ (steps : List SessionStep) (s : MdSession), s.sent debugText (steps ++ steps') =
      s.sent debugText steps ++ (s.run debugText steps).sent debugText steps' := by
  intro steps
  induction steps with
  | nil => exact fun _ => rfl
  | cons step steps ih =>
      intro s
      rw [List.cons_append, sent, sent, ih, List.append_assoc]
      rfl

/-- The job that the snapshot thread works on. -/
def WorkerPlace.job? : WorkerPlace → Option SnapshotJob
  | .idle => none
  | .budget job | .fetching job => some job

/-- The job that an idle thread takes up, if it does. -/
def SnapshotWorker.takes (w : SnapshotWorker) (a : WorkerAction) : List SnapshotJob :=
  if w.place = .idle then (w.act a).1.place.job?.toList else []

/-- The jobs that it takes up in a run, one after the other. -/
def SnapshotWorker.taken (w : SnapshotWorker) : List WorkerAction → List SnapshotJob
  | [] => []
  | a :: actions => w.takes a ++ (w.act a).1.taken actions

theorem SnapshotWorker.taken_append (actions' : List WorkerAction) :
    ∀ (actions : List WorkerAction) (w : SnapshotWorker),
      w.taken (actions ++ actions') = w.taken actions ++ (w.runs actions).1.taken actions' := by
  intro actions
  induction actions with
  | nil => exact fun _ => rfl
  | cons a actions ih =>
      intro w
      rw [List.cons_append, taken, taken, ih, List.append_assoc]
      rfl

/-- The steps of the session that the market-data thread took, and those of the snapshot
thread on its channels. -/
def sessionSteps (deeds : List SystemDeed) : List SessionStep :=
  stepsOf (deeds.filterMap SystemDeed.thread?)

/-- The jobs that the snapshot thread took up in a run of its own, with those that wait,
are the jobs that were sent. -/
structure MdSystem.Queued (supplied : Supplied) (start sys : MdSystem) (deeds : List SystemDeed) :
    Prop where
  session_eq : sys.thread.session = start.thread.session.run supplied.debugText (sessionSteps deeds)
  jobs : ∃ own, start.worker.runs own = (sys.worker, deeds.filterMap SystemDeed.worker?) ∧
    start.worker.taken own ++ sys.thread.session.jobs =
      start.thread.session.sent supplied.debugText (sessionSteps deeds)

section Queued

variable {supplied : Supplied} {start sys : MdSystem} {deeds : List SystemDeed}

theorem sessionSteps_append (deeds : List SystemDeed) (own : List Deed) (works : List WorkerDeed) :
    sessionSteps (deeds ++ (own.map .thread ++ works.map .worker)) =
      sessionSteps deeds ++ stepsOf own := by
  rw [sessionSteps, List.filterMap_append, filterMap_thread, stepsOf_append, sessionSteps]

/-- An action of either thread or of both: what waits behind it, with the job taken up,
is what waited and what it sent. -/
theorem MdSystem.Queued.next (h : Queued supplied start sys deeds) (thread : MdThread × List Deed)
    (a₂ : Option WorkerAction)
    (hsession : thread.1.session = sys.thread.session.run supplied.debugText (stepsOf thread.2))
    (hqueue : (a₂.elim [] sys.worker.takes) ++ thread.1.session.jobs =
      sys.thread.session.jobs ++ sys.thread.session.sent supplied.debugText (stepsOf thread.2)) :
    Queued supplied start ⟨thread.1, (perhaps SnapshotWorker.act sys.worker a₂).1⟩
      (deeds ++ (thread.2.map .thread ++
        (perhaps SnapshotWorker.act sys.worker a₂).2.map .worker)) := by
  obtain ⟨works, hruns, hjobs⟩ := h.jobs
  have htakes : sys.worker.taken a₂.toList = a₂.elim [] sys.worker.takes := by
    cases a₂ <;> simp [SnapshotWorker.taken]
  refine ⟨?_, works ++ a₂.toList, ?_, ?_⟩
  · rw [sessionSteps_append, hsession, h.session_eq]
    exact (List.foldl_append ..).symm
  · have hworks : sys.worker.runs a₂.toList = _ := runMachine_perhaps SnapshotWorker.act sys.worker a₂
    have happend : start.worker.runs (works ++ a₂.toList) =
        (((start.worker.runs works).1.runs a₂.toList).1,
          (start.worker.runs works).2 ++ ((start.worker.runs works).1.runs a₂.toList).2) :=
      runMachine_append start.worker works a₂.toList
    rw [List.filterMap_append, filterMap_worker, happend, hruns, hworks]
  · rw [sessionSteps_append, MdSession.sent_append, ← h.session_eq, ← hjobs,
      SnapshotWorker.taken_append, hruns, htakes, List.append_assoc, hqueue, List.append_assoc]

/-- A step of the market-data thread puts jobs behind the queue. -/
theorem MdThread.run_sends (supplied : Supplied) (t : MdThread) (m : Moment) :
    (t.run supplied m).1.session.jobs =
      t.session.jobs ++ t.session.sent supplied.debugText (stepsOf (t.run supplied m).2) := by
  have hsession := (t.run_moves supplied m).1
  rcases t.run_oneStep supplied m with hnone | ⟨step, hone, hown⟩
  · rw [hsession, hnone]
    exact (List.append_nil _).symm
  · obtain ⟨added, hadded⟩ := (hown.spares supplied.debugText).jobs
    rw [hsession, hone]
    have hjobs : (step.run supplied.debugText t.session).jobs = t.session.jobs ++ added := hadded.symm
    have hsent : step.sends supplied.debugText t.session = added := by
      rw [SessionStep.sends, hjobs, List.drop_left]
    show (step.run supplied.debugText t.session).jobs = _
    rw [hjobs, MdSession.sent, MdSession.sent, hsent, List.append_nil]

/-- The channels are left alone. -/
theorem SnapshotWorker.takes_of_job {w : SnapshotWorker} {a : WorkerAction}
    (h : (w.act a).1.place.job? = w.place.job?) : w.takes a = [] := by
  rw [takes, h]
  split_ifs with hidle
  · rw [hidle]
    rfl
  · rfl

end Queued

/-! ## §4 Runs -/

def WorkerDeed.result? : WorkerDeed → Option SnapshotResult
  | .answered _ result _ => some result
  | _ => none

/-- The results that the snapshot thread sent. -/
def resultsOf (deeds : List SystemDeed) : List SnapshotResult :=
  (deeds.filterMap SystemDeed.worker?).filterMap WorkerDeed.result?

/-- How many results the market-data thread collected. -/
def collectsOf (deeds : List SystemDeed) : Nat :=
  (stepsOf (deeds.filterMap SystemDeed.thread?)).countP SessionStep.isCollect

/-- The job handed over is the one in work, and the results that wait are those that were
sent and not collected. -/
structure MdSystem.Linked (sys : MdSystem) (deeds : List SystemDeed) : Prop where
  limit : sys.worker.limit = sys.thread.session.config.snapshotLimit
  working : sys.thread.session.working = sys.worker.place.job?
  sent : collectsOf deeds ≤ (resultsOf deeds).length
  waiting : sys.thread.session.results = (resultsOf deeds).drop (collectsOf deeds)

section Linked

variable {sys : MdSystem} {deeds : List SystemDeed}

theorem resultsOf_append (deeds : List SystemDeed) (own : List Deed) (works : List WorkerDeed) :
    resultsOf (deeds ++ (own.map .thread ++ works.map .worker)) =
      resultsOf deeds ++ works.filterMap WorkerDeed.result? := by
  rw [resultsOf, List.filterMap_append, filterMap_worker, List.filterMap_append, resultsOf]

theorem collectsOf_append (deeds : List SystemDeed) (own : List Deed) (works : List WorkerDeed) :
    collectsOf (deeds ++ (own.map .thread ++ works.map .worker)) =
      collectsOf deeds + (stepsOf own).countP SessionStep.isCollect := by
  rw [collectsOf, List.filterMap_append, filterMap_thread, stepsOf_append, List.countP_append,
    collectsOf]

/-- What an action does that leaves the channels alone. -/
structure SnapshotWorker.Busy (w w' : SnapshotWorker) (works : List WorkerDeed) : Prop where
  limit : w'.limit = w.limit
  job : w'.place.job? = w.place.job?
  results : works.filterMap WorkerDeed.result? = []

theorem SnapshotWorker.pass_busy (w : SnapshotWorker) (time : Duration) :
    w.Busy (w.act (.pass time)).1 (w.act (.pass time)).2 := ⟨rfl, rfl, rfl⟩

theorem SnapshotWorker.tryBudget_busy (w : SnapshotWorker) (late : Duration) :
    w.Busy (w.act (.tryBudget late)).1 (w.act (.tryBudget late)).2 := by
  simp only [SnapshotWorker.act]
  split
  · rename_i job hplace
    unfold SnapshotWorker.tryBudget
    split
    · exact ⟨rfl, by rw [hplace]; rfl, rfl⟩
    · dsimp only
      split_ifs
      · exact ⟨rfl, by rw [hplace]; rfl, rfl⟩
      · exact ⟨rfl, rfl, rfl⟩
  · exact ⟨rfl, rfl, rfl⟩

theorem MdSystem.Linked.busy (h : sys.Linked deeds) {worker : SnapshotWorker}
    {works : List WorkerDeed} (hbusy : sys.worker.Busy worker works) :
    MdSystem.Linked ⟨sys.thread, worker⟩ (deeds ++ ([].map .thread ++ works.map .worker)) := by
  refine ⟨hbusy.limit.trans h.limit, h.working.trans hbusy.job.symm, ?_, ?_⟩
  · rw [resultsOf_append, collectsOf_append, hbusy.results, List.append_nil]
    exact h.sent
  · rw [resultsOf_append, collectsOf_append, hbusy.results, List.append_nil]
    exact h.waiting

/-- A step of the market-data thread. -/
theorem MdSystem.Linked.own (h : sys.Linked deeds) (supplied : Supplied) (m : Moment) :
    MdSystem.Linked ⟨(sys.thread.run supplied m).1, sys.worker⟩
      (deeds ++ ((sys.thread.run supplied m).2.map .thread ++ [].map .worker)) := by
  have hsession := (sys.thread.run_moves supplied m).1
  have hresults : ∀ own : List Deed, resultsOf (deeds ++ (own.map .thread ++ [].map .worker)) =
      resultsOf deeds := fun own => by rw [resultsOf_append]; exact List.append_nil _
  rcases sys.thread.run_oneStep supplied m with hnone | ⟨step, hone, hown⟩
  · rw [hnone] at hsession
    refine ⟨?_, ?_, ?_, ?_⟩
    · rw [hsession]
      exact h.limit
    · rw [hsession]
      exact h.working
    · rw [hresults, collectsOf_append, hnone]
      exact h.sent
    · rw [hsession, hresults, collectsOf_append, hnone]
      exact h.waiting
  · rw [hone] at hsession
    have hspares := hown.spares supplied.debugText
    have hcount : [step].countP SessionStep.isCollect = if step.isCollect then 1 else 0 := by
      simp [List.countP_cons]
    refine ⟨?_, ?_, ?_, ?_⟩
    · rw [hsession]
      exact h.limit.trans (congrArg MdConfig.snapshotLimit hspares.config).symm
    · rw [hsession]
      exact hspares.working.trans h.working
    · rw [hresults, collectsOf_append, hone, hcount]
      split_ifs with hcollect
      · -- There was a result to collect.
        have hne : sys.thread.session.results ≠ [] := by
          cases step <;> first | exact hown | cases hcollect
        rw [h.waiting] at hne
        exact Nat.lt_of_not_le fun hle => hne (List.drop_eq_nil_iff.mpr hle)
      · exact h.sent
    · rw [hsession, hresults, collectsOf_append, hone, hcount]
      refine hspares.results.trans ?_
      show (if step.isCollect then sys.thread.session.results.tail else sys.thread.session.results) = _
      split_ifs
      · rw [h.waiting, List.tail_drop]
      · exact h.waiting

theorem MdSystem.Linked.receive (h : sys.Linked deeds) (supplied : Supplied) {job : SnapshotJob}
    {jobs : List SnapshotJob} (late : Duration) (hplace : sys.worker.place = .idle)
    (hjobs : sys.thread.session.jobs = job :: jobs) :
    MdSystem.Linked ⟨(sys.thread.act supplied .takeJob).1, (sys.worker.act (.receive job late)).1⟩
      (deeds ++ ((sys.thread.act supplied .takeJob).2.map .thread ++
        (sys.worker.act (.receive job late)).2.map .worker)) := by
  have hidle : sys.thread.session.working = none := by rw [h.working, hplace]; rfl
  have htaken : sys.thread.session.takeJob =
      { sys.thread.session with working := some job, jobs } := by
    rw [MdSession.takeJob, hidle, hjobs]
  have hworker : sys.worker.act (.receive job late) =
      ({ sys.worker.waitOut late with place := .budget job }, []) := by
    simp only [SnapshotWorker.act, hplace]
  have hlimit : (sys.worker.waitOut late).limit = sys.worker.limit := by
    unfold SnapshotWorker.waitOut
    split <;> rfl
  rw [hworker]
  simp only [MdThread.act, htaken]
  refine ⟨hlimit.trans h.limit, rfl, ?_, ?_⟩
  · rw [resultsOf_append, collectsOf_append]
    simpa [stepsOf, Deed.step?, SessionStep.isCollect] using h.sent
  · rw [resultsOf_append, collectsOf_append]
    simpa [stepsOf, Deed.step?, SessionStep.isCollect] using h.waiting

theorem MdSystem.Linked.fetch (h : sys.Linked deeds) (supplied : Supplied) {job : SnapshotJob}
    (took : Duration) (got : Except NetError (Response × Bytes)) (fetchedAt : WallTime)
    (hplace : sys.worker.place = .fetching job) :
    MdSystem.Linked
      ⟨(sys.thread.act supplied (.finishJob (sys.worker.bodyOf job got) fetchedAt)).1,
        (sys.worker.act (.fetch took got fetchedAt)).1⟩
      (deeds ++ ((sys.thread.act supplied (.finishJob (sys.worker.bodyOf job got) fetchedAt)).2.map
          .thread ++ (sys.worker.act (.fetch took got fetchedAt)).2.map .worker)) := by
  let result : SnapshotResult := ⟨job.instrument.id, job.generation, job.purpose,
    Bowst.Venue.fetch sys.worker.limit.toNat job.instrument (sys.worker.bodyOf job got) fetchedAt⟩
  have hworking : sys.thread.session.working = some job := by rw [h.working, hplace]; rfl
  have hfinished : sys.thread.session.finishJob (sys.worker.bodyOf job got) fetchedAt =
      { sys.thread.session with working := none, results := sys.thread.session.results ++ [result] } := by
    simp only [MdSession.finishJob, hworking, result, h.limit]
  have hworker : sys.worker.act (.fetch took got fetchedAt) =
      sys.worker.fetchJob job took got fetchedAt := by
    simp only [SnapshotWorker.act, hplace]
  have hresults : (sys.worker.fetchJob job took got fetchedAt).2.filterMap WorkerDeed.result? =
      [result] := by
    simp [SnapshotWorker.fetchJob, List.filterMap_map, Function.comp_def, WorkerDeed.result?, result]
  have hcollects : (stepsOf [Deed.session
      (.finishJob (sys.worker.bodyOf job got) fetchedAt)]).countP SessionStep.isCollect = 0 := rfl
  rw [hworker]
  simp only [MdThread.act, hfinished]
  refine ⟨h.limit, rfl, ?_, ?_⟩
  · rw [resultsOf_append, collectsOf_append, hcollects, hresults, List.length_append]
    exact h.sent.trans (Nat.le_add_right ..)
  · rw [resultsOf_append, collectsOf_append, hcollects, hresults, Nat.add_zero,
      List.drop_append_of_le_length h.sent, ← h.waiting]

theorem MdSystem.Linked.act (supplied : Supplied) (sys : MdSystem) (deeds : List SystemDeed)
    (a : SystemAction) (h : sys.Linked deeds) :
    MdSystem.Linked (sys.act supplied a).1 (deeds ++ (sys.act supplied a).2) := by
  obtain ⟨a₁, a₂, hacts, heq⟩ := MdSystem.act_acts supplied sys a
  rw [heq]
  cases hacts with
  | thread m => exact h.own supplied m
  | pass time => exact h.busy (sys.worker.pass_busy time)
  | tryBudget late => exact h.busy (sys.worker.tryBudget_busy late)
  | receive late hplace hjobs => exact h.receive supplied late hplace hjobs
  | fetch took got fetchedAt hplace => exact h.fetch supplied took got fetchedAt hplace
  | still => simpa [MdSystem.perhaps] using h

/-- What waits behind an action, with the job that it takes up, waited or was sent by it. -/
theorem MdSystem.Queued.act {supplied : Supplied} {start : MdSystem}
    (h : Queued supplied start sys deeds) (hlinked : sys.Linked deeds) (a : SystemAction) :
    Queued supplied start (sys.act supplied a).1 (deeds ++ (sys.act supplied a).2) := by
  obtain ⟨a₁, a₂, hacts, heq⟩ := MdSystem.act_acts supplied sys a
  rw [heq]
  -- An action of the snapshot thread that leaves the channels alone.
  have hbusy : ∀ {a : WorkerAction}, (sys.worker.act a).1.place.job? = sys.worker.place.job? →
      Queued supplied start ⟨sys.thread, (sys.worker.act a).1⟩
        (deeds ++ ([].map .thread ++ (sys.worker.act a).2.map .worker)) := by
    intro a hjob
    refine h.next (sys.thread, []) (some a) rfl ?_
    show sys.worker.takes a ++ _ = _ ++ []
    rw [SnapshotWorker.takes_of_job hjob, List.append_nil]
    rfl
  cases hacts with
  | thread m =>
      exact h.next _ none (sys.thread.run_moves supplied m).1 (sys.thread.run_sends supplied m)
  | pass time => exact hbusy (sys.worker.pass_busy time).job
  | tryBudget late => exact hbusy (sys.worker.tryBudget_busy late).job
  | @receive job jobs late hplace hjobs =>
      have hidle : sys.thread.session.working = none := by rw [hlinked.working, hplace]; rfl
      have htaken : sys.thread.session.takeJob.jobs = jobs := by rw [MdSession.takeJob, hidle, hjobs]
      have htakes : sys.worker.takes (.receive job late) = [job] := by
        simp [SnapshotWorker.takes, SnapshotWorker.act, hplace, WorkerPlace.job?]
      refine h.next (sys.thread.act supplied .takeJob) (some (.receive job late)) rfl ?_
      have hsends : SessionStep.takeJob.sends supplied.debugText sys.thread.session = [] := by
        show sys.thread.session.takeJob.jobs.drop _ = []
        rw [htaken, hjobs]
        exact List.drop_of_length_le (Nat.le_succ _)
      show sys.worker.takes (.receive job late) ++ sys.thread.session.takeJob.jobs =
        _ ++ (SessionStep.takeJob.sends supplied.debugText sys.thread.session ++ [])
      rw [htakes, htaken, hsends, hjobs]
      simp
  | @fetch job took got fetchedAt hplace =>
      have hkept : ∀ response, (sys.thread.session.finishJob response fetchedAt).jobs =
          sys.thread.session.jobs := by
        intro response
        unfold MdSession.finishJob
        split <;> rfl
      refine h.next (sys.thread.act supplied (.finishJob (sys.worker.bodyOf job got) fetchedAt))
        (some (.fetch took got fetchedAt)) rfl ?_
      have htakes : sys.worker.takes (.fetch took got fetchedAt) = [] := by
        simp [SnapshotWorker.takes, hplace]
      have hsends : (SessionStep.finishJob (sys.worker.bodyOf job got) fetchedAt).sends
          supplied.debugText sys.thread.session = [] := by
        show (sys.thread.session.finishJob _ fetchedAt).jobs.drop _ = []
        rw [hkept, List.drop_length]
      show sys.worker.takes (.fetch took got fetchedAt) ++
          (sys.thread.session.finishJob (sys.worker.bodyOf job got) fetchedAt).jobs =
        _ ++ ((SessionStep.finishJob (sys.worker.bodyOf job got) fetchedAt).sends
          supplied.debugText sys.thread.session ++ [])
      rw [htakes, hkept, hsends]
      simp
  | still => simpa [MdSystem.perhaps] using h

end Linked

/-- **The two threads run together.** Over every interleaving of the market-data thread
and the snapshot thread, whatever the network, the venue and the clocks do: the part of
each is one of its own runs; the jobs that the snapshot thread took up, with those that
wait, are the jobs that the session sent, in order; the one that was handed over and not
answered is the one that it works on; and the results that wait are those that it sent, in
order, behind the ones that were collected, so that none is lost and none comes twice. -/
theorem threads_run_together (supplied : Supplied) (run : RunConfig) (url : Url) (now : Instant)
    (restUrl : Bytes) (weightPerMinute : UInt64) (origin : Instant) (late : Duration)
    {config : MdConfig} {instruments : InstrumentTable} {session : MdSession}
    (hfresh : MdSession.Fresh config instruments session) (actions : List SystemAction) :
    let start := MdSystem.start run url session now restUrl weightPerMinute origin late
    let (sys, deeds) := start.runs supplied actions
    (∃ own, start.thread.runs supplied own = (sys.thread, deeds.filterMap SystemDeed.thread?)) ∧
      (∃ own, start.worker.runs own = (sys.worker, deeds.filterMap SystemDeed.worker?) ∧
        start.worker.taken own ++ sys.thread.session.jobs =
          session.sent supplied.debugText (sessionSteps deeds)) ∧
      sys.thread.session.working = sys.worker.place.job? ∧
      sys.thread.session.results = (resultsOf deeds).drop (collectsOf deeds) := by
  intro start
  have hstart : start.Linked [] ∧ session.jobs = [] := by
    cases hfresh with
    | new hs =>
        obtain ⟨books, -, rfl⟩ := MdSession.new_eq hs
        exact ⟨⟨rfl, rfl, le_rfl, rfl⟩, rfl⟩
    | withJournal clock hs =>
        obtain ⟨books, -, rfl⟩ := MdSession.new_eq hs
        exact ⟨⟨rfl, rfl, le_rfl, rfl⟩, rfl⟩
  have hqueued : MdSystem.Queued supplied start start [] := ⟨rfl, [], rfl, hstart.2⟩
  have hstep : ∀ sys deeds a, (sys.Linked deeds ∧ MdSystem.Queued supplied start sys deeds) →
      MdSystem.Linked (sys.act supplied a).1 (deeds ++ (sys.act supplied a).2) ∧
        MdSystem.Queued supplied start (sys.act supplied a).1 (deeds ++ (sys.act supplied a).2) :=
    fun sys deeds a h => ⟨h.1.act supplied sys deeds a, h.2.act h.1 a⟩
  obtain ⟨hlinked, hjobs⟩ := runMachine_induction hstep actions ⟨hstart.1, hqueued⟩
  exact ⟨MdSystem.runs_thread supplied _ actions, hjobs.jobs, hlinked.working, hlinked.waiting⟩

/-- The market-data thread sends a job, the snapshot thread answers it, and the snapshot
makes the book live. -/
def sampleActions : List SystemAction :=
  List.replicate 7 (.act sampleMoment) ++
    [.receive 0, .tryBudget 0, .pass 5, .fetch 7 (.ok (⟨200, none, none⟩, depthBody 10 1)) ⟨0⟩] ++
    List.replicate 7 (.act sampleMoment)

def sampleSystem : MdSystem :=
  .start sampleRunConfig sampleUrl btcSession 0 (ascii "https://api.example") 1200 0 0

/-- The job of the sample run is sent and answered, and its result collected. -/
theorem sampleSystem_runs :
    (sampleSystem.runs sampleSupplied sampleActions).1.thread.session.jobs = [] ∧
    btcSession.sent (fun _ => []) (sessionSteps (sampleSystem.runs sampleSupplied sampleActions).2) =
      [⟨btcUsdt, 0, .sync⟩] ∧
    (resultsOf (sampleSystem.runs sampleSupplied sampleActions).2).length = 1 ∧
    collectsOf (sampleSystem.runs sampleSupplied sampleActions).2 = 1 ∧
    (sampleSystem.runs sampleSupplied sampleActions).1.thread.session.books.isLive ⟨0⟩ = true := by
  decide +kernel

/-- One job is taken up, one result is sent and collected, and the book is live. -/
theorem sample_threads_run_together :
    let (sys, deeds) := sampleSystem.runs sampleSupplied sampleActions
    (∃ own, sampleSystem.worker.runs own = (sys.worker, deeds.filterMap SystemDeed.worker?) ∧
      sampleSystem.worker.taken own = [⟨btcUsdt, 0, .sync⟩]) ∧
    (resultsOf deeds).length = 1 ∧ sys.thread.session.results = [] ∧
    sys.thread.session.books.isLive ⟨0⟩ = true := by
  obtain ⟨hjobs, hsent, hresults, hcollects, hlive⟩ := sampleSystem_runs
  obtain ⟨-, ⟨own, hown, hqueue⟩, -, hwaiting⟩ :=
    threads_run_together sampleSupplied sampleRunConfig sampleUrl 0 (ascii "https://api.example") 1200
      0 0 btcSession_fresh sampleActions
  refine ⟨⟨own, hown, ?_⟩, hresults, ?_, hlive⟩
  · exact (List.append_nil _).symm.trans ((congrArg _ hjobs.symm).trans (hqueue.trans hsent))
  · exact hwaiting.trans (List.drop_eq_nil_of_le (hresults.trans hcollects.symm).le)

end Bowst.Venue
