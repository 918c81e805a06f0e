/-
Bowst.Venue.SessionTheorems — snapshot requests of a session.

  §1 Requests — the requests whose results are not collected yet, and what a step
                does to them.
  §2 Runs     — requests are answered in the order in which they were sent.
  §3 Session  — no instrument is stranded, and no result of an earlier connection
                is applied.
-/
import Bowst.Venue.BooksTheorems
import Bowst.Venue.Session

namespace Bowst.Venue

open Bowst.Lib Bowst.Core Bowst.L2 Bowst.Journal

/-! ## §1 Requests -/

/-- What one request is about. -/
structure Request where
  instrument : InstrumentId
  generation : UInt64
  purpose : Purpose
  deriving DecidableEq, Repr

def SnapshotJob.request (job : SnapshotJob) : Request :=
  ⟨job.instrument.id, job.generation, job.purpose⟩

def SnapshotResult.request (result : SnapshotResult) : Request :=
  ⟨result.instrument, result.generation, result.purpose⟩

/-- Whether the answer changes the state of the instrument at `index`, on a
connection of `generation`. -/
def Request.Syncs (r : Request) (index : Nat) (generation : UInt64) : Prop :=
  r.instrument.index = index ∧ r.generation = generation ∧ r.purpose = .sync

theorem ofIndex_index {index : Nat} (h : index < 2 ^ 32) :
    (InstrumentId.ofIndex index).index = index := by
  rw [InstrumentId.ofIndex, if_pos h]
  exact UInt32.toNat_ofNat_of_lt' h

/-- The instrument at a position has it as its ID. -/
theorem index_of_get {table : InstrumentTable} {id : InstrumentId} {instrument : Instrument}
    (h : table.get id = some instrument) : instrument.id = id := by
  have hindex := InstrumentTable.index_of_check _ _ table.valid h
  rw [List.length_nil, Nat.zero_add] at hindex
  exact InstrumentId.index_inj.mp hindex

/-- There are no more instruments than IDs. -/
theorem length_le_of_valid (table : InstrumentTable) : table.instruments.length ≤ 2 ^ 32 := by
  by_contra hlong
  have hlast : 2 ^ 32 < table.instruments.length := not_le.mp hlong
  have hindex := InstrumentTable.index_of_check _ _ table.valid
    (List.getElem?_eq_getElem hlast)
  rw [List.length_nil, Nat.zero_add] at hindex
  exact absurd (UInt32.toNat_lt _) (by rw [← InstrumentId.index, hindex]; exact lt_irrefl _)

/-- `apply` alone, without the report. -/
theorem MdBooks.apply_sameTable (b : MdBooks) (bytes : Bytes) : SameTable b (b.apply bytes).2 := by
  have hmessage := run_sameTable b (.message bytes)
  have hbooks : (b.onMessage bytes).2.1 = (b.apply bytes).2 := by
    unfold onMessage
    split <;> rename_i happly <;> rw [happly]
  rw [← hbooks]
  exact hmessage

namespace MdSession

/-- The requests without a collected result, in the order in which they were
sent. -/
def inFlight (s : MdSession) : List Request :=
  s.results.map SnapshotResult.request ++
    (s.working.toList.map SnapshotJob.request ++ s.jobs.map SnapshotJob.request)

/-- The instrument at `index` waits for the result of a request. -/
def Requested (s : MdSession) (index : Nat) : Prop :=
  s.states[index]? = some SnapshotState.requested

/-- What no step changes. -/
structure SameShape (s s' : MdSession) : Prop where
  config : s'.config = s.config
  table : s.books.SameTable s'.books
  length : s'.states.length = s.states.length

/-- The channels are not used, and nothing is marked as requested. -/
structure Quiet (s s' : MdSession) : Prop where
  shape : SameShape s s'
  jobs : s'.jobs = s.jobs
  working : s'.working = s.working
  results : s'.results = s.results
  generation : s'.generation = s.generation
  requested : ∀ index, s'.Requested index → s.Requested index

variable {s s' s'' : MdSession}

theorem SameShape.refl (s : MdSession) : SameShape s s := ⟨rfl, .refl _, rfl⟩

theorem SameShape.trans (h : SameShape s s') (h' : SameShape s' s'') : SameShape s s'' :=
  ⟨h'.config.trans h.config, h.table.trans h'.table, h'.length.trans h.length⟩

theorem Quiet.inFlight (h : Quiet s s') : s'.inFlight = s.inFlight := by
  rw [MdSession.inFlight, MdSession.inFlight, h.jobs, h.working, h.results]

theorem Quiet.refl (s : MdSession) : Quiet s s := ⟨.refl s, rfl, rfl, rfl, rfl, fun _ => id⟩

theorem Quiet.trans (h : Quiet s s') (h' : Quiet s' s'') : Quiet s s'' :=
  ⟨h.shape.trans h'.shape, h'.jobs.trans h.jobs, h'.working.trans h.working,
    h'.results.trans h.results, h'.generation.trans h.generation,
    fun index hindex => h.requested index (h'.requested index hindex)⟩

theorem quiet_record (s : MdSession) (kind : Kind) (wall : Option WallTime) (parts : List Bytes)
    (clock : Readings) : Quiet s (s.record kind wall parts clock) :=
  ⟨⟨rfl, .refl _, rfl⟩, rfl, rfl, rfl, rfl, fun _ => id⟩

theorem quiet_tell (s : MdSession) (calls : List HandlerCall) : Quiet s (s.tell calls) :=
  ⟨⟨rfl, .refl _, rfl⟩, rfl, rfl, rfl, rfl, fun _ => id⟩

theorem quiet_books {books : MdBooks} (h : s.books.SameTable books) : Quiet s { s with books } :=
  ⟨⟨rfl, h, rfl⟩, rfl, rfl, rfl, rfl, fun _ => id⟩

theorem quiet_verification (s : MdSession) (verification : Option (InstrumentId × Instant)) :
    Quiet s { s with verification } := ⟨⟨rfl, .refl _, rfl⟩, rfl, rfl, rfl, rfl, fun _ => id⟩

theorem quiet_countAbandoned (s : MdSession) : Quiet s s.countAbandoned :=
  quiet_books ⟨rfl, rfl, rfl, rfl⟩

theorem quiet_countConnection (s : MdSession) : Quiet s s.countConnection :=
  quiet_books ⟨rfl, rfl, rfl, rfl⟩

theorem quiet_status (debugText : MdStatus → Bytes) (s : MdSession) (status : MdStatus)
    (clock : Readings) : Quiet s (s.status debugText status clock) :=
  (quiet_record s _ _ _ _).trans (quiet_tell _ _)

/-- Another state than `requested` is given to one instrument. -/
theorem requested_of_setState {instrument : InstrumentId} {state : SnapshotState}
    (hstate : state ≠ .requested) {index : Nat}
    (h : (s.setState instrument state).Requested index) :
    instrument.index ≠ index ∧ s.Requested index := by
  have hset : (s.states.set instrument.index state)[index]? = some .requested := h
  rw [List.getElem?_set] at hset
  split_ifs at hset with heq hlt
  · exact absurd (Option.some.inj hset) hstate
  · exact ⟨heq, hset⟩

theorem quiet_setState (s : MdSession) (instrument : InstrumentId) {state : SnapshotState}
    (hstate : state ≠ .requested) : Quiet s (s.setState instrument state) :=
  ⟨⟨rfl, .refl _, List.length_set⟩, rfl, rfl, rfl, rfl, fun _ h => (requested_of_setState hstate h).2⟩

theorem quiet_endVerification (s : MdSession) (applied : Applied) :
    Quiet s (s.endVerification applied) := by
  unfold endVerification
  split
  · exact .refl s
  · split
    · exact .refl s
    · refine .trans ?_ (quiet_verification _ _)
      split
      · split
        · exact quiet_countAbandoned s
        · exact .refl s
      · exact .refl s

theorem quiet_afterApply (s : MdSession) (applied : Applied) : Quiet s (s.afterApply applied) := by
  have htold := (quiet_tell s (s.books.report applied)).trans (quiet_endVerification _ applied)
  cases applied with
  | quiet => exact htold
  | book instrument time => exact htold
  | down instrument reason => exact htold.trans (quiet_setState _ _ nofun)

theorem quiet_message (s : MdSession) (bytes : Bytes) (clock : Readings) :
    Quiet s (s.message bytes clock) := by
  have htable := MdBooks.apply_sameTable s.books bytes
  have happlied := (quiet_record s .mdMessage none [bytes] clock).trans (quiet_books htable)
  refine happlied.trans ?_
  show Quiet _ (afterMessage _ (s.books.apply bytes).1)
  cases (s.books.apply bytes).1 with
  | ok applied => exact quiet_afterApply _ applied
  | error err => exact .refl _

theorem retryAt_ne_requested (time : Instant) : SnapshotState.retryAt time ≠ .requested := nofun

theorem nextState_ne_requested (s : MdSession) (clock : Readings) (outcome : SnapshotOutcome) :
    s.nextState clock outcome ≠ .requested := by
  cases outcome <;> exact nofun

theorem quiet_failSnapshot (debugText : MdStatus → Bytes) (s : MdSession)
    (instrument : InstrumentId) (failure : SnapshotFailure) (clock : Readings) :
    Quiet s (s.failSnapshot debugText instrument failure clock) ∧
      ¬ (s.failSnapshot debugText instrument failure clock).Requested instrument.index := by
  have hstatus := quiet_status debugText (s.setState instrument (.retryAt (later clock.now
    (failure.retryAfter.elim s.config.snapshotRetry (max · s.config.snapshotRetry)))))
    (.snapshotFailed instrument failure.reason) clock
  refine ⟨(quiet_setState s instrument (retryAt_ne_requested _)).trans hstatus, fun h => ?_⟩
  exact (requested_of_setState (retryAt_ne_requested _) (hstatus.requested _ h)).1 rfl

theorem quiet_useSnapshot (s : MdSession) (instrument : InstrumentId) (snapshot : OwnedSnapshot)
    (clock : Readings) : Quiet s (s.useSnapshot instrument snapshot clock) ∧
      ¬ (s.useSnapshot instrument snapshot clock).Requested instrument.index := by
  have htable := MdBooks.run_sameTable s.books
    (.snapshot instrument snapshot.toDepthSnapshot snapshot.fetchedAt)
  refine ⟨?_, fun h => (requested_of_setState (nextState_ne_requested _ _ _) h).1 rfl⟩
  exact (((quiet_record s _ _ _ _).trans (quiet_books htable)).trans (quiet_tell _ _)).trans
    (quiet_setState _ _ (nextState_ne_requested _ _ _))

/-- A collected answer ends the request of its instrument. -/
theorem quiet_applySnapshot (debugText : MdStatus → Bytes) (s : MdSession)
    (result : SnapshotResult) (clock : Readings) :
    Quiet s (s.applySnapshot debugText result clock) ∧
      ¬ (s.applySnapshot debugText result clock).Requested result.instrument.index := by
  unfold applySnapshot
  split
  · exact quiet_failSnapshot debugText s result.instrument _ clock
  · exact quiet_useSnapshot s result.instrument _ clock

theorem quiet_abandonVerification (s : MdSession) : Quiet s s.abandonVerification :=
  ((quiet_books (.cancelVerification s.books)).trans (quiet_verification _ _)).trans
    (quiet_countAbandoned _)

theorem quiet_afterVerdict (s : MdSession) (id : InstrumentId) (verdict : Verification) :
    Quiet s (s.afterVerdict id verdict) := by
  cases verdict with
  | pending => exact .refl s
  | passed | notRunning => exact quiet_verification s none
  | failed m => exact (quiet_verification s none).trans (quiet_setState _ _ nofun)
  | unusable => exact (quiet_verification s none).trans (quiet_countAbandoned _)

theorem quiet_useVerificationSnapshot (s : MdSession) (id : InstrumentId)
    (snapshot : OwnedSnapshot) (clock : Readings) :
    Quiet s (s.useVerificationSnapshot id snapshot clock) := by
  have htable := MdBooks.run_sameTable s.books (.verificationSnapshot id snapshot.toDepthSnapshot)
  exact ((quiet_record s _ _ _ _).trans (quiet_books htable)).trans
    ((quiet_tell _ _).trans (quiet_afterVerdict _ _ _))

theorem quiet_applyVerificationSnapshot (s : MdSession) (result : SnapshotResult)
    (clock : Readings) : Quiet s (s.applyVerificationSnapshot result clock) := by
  unfold applyVerificationSnapshot
  split
  · exact .refl s
  · split
    · exact .refl s
    · split
      · exact quiet_abandonVerification s
      · exact quiet_useVerificationSnapshot s _ _ clock

/-- What a step does to the requests in flight: it sends some, collects the result
of the oldest, or ends the connection. The indices are the number of results
collected and whether the connection ended. -/
inductive Flow (s s' : MdSession) : Nat → Bool → Prop
  | sent (requests : List Request) (hshape : SameShape s s')
      (hflight : s'.inFlight = s.inFlight ++ requests) (hgeneration : s'.generation = s.generation)
      (hrequests : ∀ r ∈ requests, r.generation = s.generation)
      (hstates : ∀ index, s'.Requested index →
        s.Requested index ∨ ∃ r ∈ requests, r.Syncs index s.generation) :
      Flow s s' 0 false
  | collected (request : Request) (hshape : SameShape s s')
      (hflight : s.inFlight = request :: s'.inFlight) (hgeneration : s'.generation = s.generation)
      (hstates : ∀ index, s'.Requested index →
        s.Requested index ∧ ¬ request.Syncs index s.generation) :
      Flow s s' 1 false
  | ended (hshape : SameShape s s') (hflight : s'.inFlight = s.inFlight)
      (hgeneration : s'.generation = s.generation + 1)
      (hstates : ∀ index, ¬ s'.Requested index) : Flow s s' 0 true

theorem Flow.shape {n : Nat} {ended : Bool} (h : Flow s s' n ended) : SameShape s s' := by
  cases h with
  | sent _ hshape | collected _ hshape | ended hshape => exact hshape

theorem Quiet.flow (h : Quiet s s') : Flow s s' 0 false :=
  .sent [] h.shape (by rw [h.inFlight, List.append_nil]) h.generation nofun
    fun index hindex => .inl (h.requested index hindex)

/-- Two sends are one. -/
theorem Flow.send_trans (h : Flow s s' 0 false) (h' : Flow s' s'' 0 false) :
    Flow s s'' 0 false := by
  cases h with
  | sent requests hshape hflight hgeneration hrequests hstates =>
      cases h' with
      | sent requests' hshape' hflight' hgeneration' hrequests' hstates' =>
          rw [hgeneration] at hrequests' hstates'
          refine .sent (requests ++ requests') (hshape.trans hshape') ?_
            (hgeneration'.trans hgeneration) ?_ ?_
          · rw [hflight', hflight, List.append_assoc]
          · intro r hr
            exact (List.mem_append.mp hr).elim (hrequests r) (hrequests' r)
          · intro index hindex
            rcases hstates' index hindex with hindex | ⟨r, hr, hsyncs⟩
            · rcases hstates index hindex with hindex | ⟨r, hr, hsyncs⟩
              · exact .inl hindex
              · exact .inr ⟨r, List.mem_append_left _ hr, hsyncs⟩
            · exact .inr ⟨r, List.mem_append_right _ hr, hsyncs⟩

/-- A job for the snapshot thread. -/
theorem inFlight_send (s : MdSession) (job : SnapshotJob) :
    ({ s with jobs := s.jobs ++ [job] } : MdSession).inFlight = s.inFlight ++ [job.request] := by
  simp [inFlight, List.append_assoc]

theorem flow_requestSnapshot (now : Instant) (s : MdSession) {index : Nat}
    (hindex : index < 2 ^ 32) : Flow s (requestSnapshot now s index) 0 false := by
  unfold requestSnapshot
  dsimp only
  split
  · exact (Quiet.refl s).flow
  · split
    · exact (Quiet.refl s).flow
    · rename_i instrument hget
      have hid : instrument.id.index = index := by rw [index_of_get hget, ofIndex_index hindex]
      refine .sent [⟨instrument.id, s.generation, .sync⟩] ?_ (inFlight_send s _) rfl
        ?_ ?_
      · exact ⟨rfl, ⟨rfl, rfl, rfl, rfl⟩, List.length_set⟩
      · intro r hr
        rw [List.mem_singleton.mp hr]
      · intro other hother
        have hset : (s.states.set index .requested)[other]? = some .requested := hother
        rw [List.getElem?_set] at hset
        split_ifs at hset with heq hlt
        · exact .inr ⟨_, List.mem_singleton_self _, hid.trans heq, rfl, rfl⟩
        · exact .inl hset

/-- A request for each instrument that is due. -/
theorem flow_requestSnapshots (s : MdSession) (now : Instant) (hlength : s.states.length ≤ 2 ^ 32) :
    Flow s (s.requestSnapshots now) 0 false := by
  have hloop : ∀ (indices : List Nat) (s : MdSession), (∀ index ∈ indices, index < 2 ^ 32) →
      Flow s (indices.foldl (requestSnapshot now) s) 0 false := by
    intro indices
    induction indices with
    | nil => intro s _; exact (Quiet.refl s).flow
    | cons index indices ih =>
        intro s h
        exact (flow_requestSnapshot now s (h index (by simp))).send_trans
          (ih _ fun other hother => h other (by simp [hother]))
  refine hloop _ s fun index hindex => ?_
  exact lt_of_lt_of_le (List.mem_range.mp hindex) hlength

theorem flow_sendVerification (s : MdSession) (id : InstrumentId) (instrument : Instrument)
    (clock : Readings) : Flow s (s.sendVerification id instrument clock) 0 false := by
  refine .sent [⟨instrument.id, s.generation, .verify⟩] ?_ (inFlight_send s _) rfl
    ?_ fun _ h => .inl h
  · exact ⟨rfl, ⟨rfl, rfl, rfl, rfl⟩, rfl⟩
  · intro r hr
    rw [List.mem_singleton.mp hr]

theorem quiet_verifyCursor (s : MdSession) (verifyCursor : Nat) : Quiet s { s with verifyCursor } :=
  ⟨⟨rfl, .refl _, rfl⟩, rfl, rfl, rfl, rfl, fun _ => id⟩

theorem quiet_nextVerification (s : MdSession) (nextVerification : Instant) :
    Quiet s { s with nextVerification } := ⟨⟨rfl, .refl _, rfl⟩, rfl, rfl, rfl, rfl, fun _ => id⟩

theorem flow_verifyNext (s : MdSession) (clock : Readings) : ∀ steps : List Nat,
    Flow s (s.verifyNext clock steps) 0 false := by
  intro steps
  induction steps with
  | nil => exact (Quiet.refl s).flow
  | cons step steps ih =>
      unfold verifyNext
      dsimp only
      split
      · exact ih
      · split
        · exact ih
        · rename_i instrument _ _ books hstart
          have htable := MdBooks.run_sameTable s.books (.startVerification (InstrumentId.ofIndex
            ((s.verifyCursor + step) % (usizeMax + 1) % s.books.instruments.instruments.length)))
          rw [BooksOp.run, hstart] at htable
          exact (quiet_books htable).flow.send_trans
            ((flow_sendVerification _ _ instrument clock).send_trans (quiet_verifyCursor _ _).flow)

theorem flow_startVerification (s : MdSession) (every : Duration) (clock : Readings)
    (after : Instant) : Flow s (s.startVerification every clock after) 0 false := by
  unfold startVerification
  split
  · exact (Quiet.refl s).flow
  · exact (flow_verifyNext s clock _).send_trans (quiet_nextVerification _ _).flow

theorem flow_scheduleVerification (s : MdSession) (clock : Readings) (after : Instant) :
    Flow s (s.scheduleVerification clock after) 0 false := by
  unfold scheduleVerification
  split
  · exact (Quiet.refl s).flow
  · split
    · exact flow_startVerification s _ clock after
    · split
      · exact (Quiet.refl s).flow
      · exact (quiet_abandonVerification s).flow.send_trans
          (flow_startVerification _ _ clock after)

theorem quiet_dropVerification (s : MdSession) : Quiet s s.dropVerification := by
  unfold dropVerification
  split
  · exact (quiet_verification s none).trans (quiet_countAbandoned _)
  · exact .refl s

theorem idle_ne_requested {α : Type} (xs : List α) (index : Nat) :
    (xs.map fun _ => SnapshotState.idle)[index]? ≠ some .requested := by
  intro h
  rw [List.getElem?_map] at h
  obtain ⟨_, _, heq⟩ := Option.map_eq_some_iff.mp h
  cases heq

theorem flow_takeAllDown (s : MdSession) (clock : Readings) :
    Flow s (s.takeAllDown clock) 0 true := by
  have hreset := MdBooks.run_sameTable s.books .resetAll
  have hdrop := quiet_dropVerification { s.record .mdReset none [] clock with
    generation := s.generation + 1, books := s.books.resetAll }
  have hidle : SameShape s (s.takeAllDown clock) :=
    ⟨hdrop.shape.config, hreset.trans hdrop.shape.table,
      (List.length_map _).trans hdrop.shape.length⟩
  exact .ended hidle hdrop.inFlight hdrop.generation (idle_ne_requested _)

/-- The snapshot thread keeps the requests in their order. -/
theorem flow_of_inFlight (hshape : SameShape s s') (hflight : s'.inFlight = s.inFlight)
    (hgeneration : s'.generation = s.generation) (hstates : s'.states = s.states) :
    Flow s s' 0 false := by
  refine .sent [] hshape (by rw [hflight, List.append_nil]) hgeneration nofun fun index h => ?_
  rw [Requested, hstates] at h
  exact .inl h

theorem flow_takeJob (s : MdSession) : Flow s s.takeJob 0 false := by
  unfold takeJob
  split
  · rename_i job jobs hworking hjobs
    exact flow_of_inFlight ⟨rfl, .refl _, rfl⟩ (by simp [inFlight, hworking, hjobs]) rfl rfl
  · exact (Quiet.refl s).flow

theorem flow_finishJob (s : MdSession) (response : Except SnapshotFailure Bytes)
    (fetchedAt : WallTime) : Flow s (s.finishJob response fetchedAt) 0 false := by
  unfold finishJob
  split
  · exact (Quiet.refl s).flow
  · rename_i job hworking
    refine flow_of_inFlight ⟨rfl, .refl _, rfl⟩ ?_ rfl rfl
    simp [inFlight, hworking, SnapshotJob.request, SnapshotResult.request]

/-- The result of the oldest request is collected. -/
theorem flow_collectSnapshot (debugText : MdStatus → Bytes) {s : MdSession}
    {result : SnapshotResult} {results : List SnapshotResult} (h : s.results = result :: results)
    (clock : Readings) : Flow s (s.collectSnapshot debugText clock) 1 false := by
  have hflight : s.inFlight = result.request :: ({ s with results } : MdSession).inFlight := by
    simp [inFlight, h]
  have hdone : ∀ s', Quiet { s with results } s' →
      (∀ index, s'.Requested index → ¬ result.request.Syncs index s.generation) →
      Flow s s' 1 false := by
    intro s' hquiet hsyncs
    refine .collected result.request ?_ ?_ hquiet.generation fun index hindex => ?_
    · exact ⟨hquiet.shape.config, hquiet.shape.table, hquiet.shape.length⟩
    · rw [hflight, hquiet.inFlight]
    · exact ⟨hquiet.requested index hindex, hsyncs index hindex⟩
  unfold collectSnapshot
  rw [h]
  dsimp only
  split
  · rename_i hstale
    exact hdone _ (.refl _) fun _ _ hsyncs => hstale hsyncs.2.1
  · split
    · rename_i hpurpose
      obtain ⟨hquiet, hanswered⟩ :=
        quiet_applySnapshot debugText { s with results } result clock
      exact hdone _ hquiet fun index hindex hsyncs => hanswered (hsyncs.1 ▸ hindex)
    · rename_i hpurpose
      refine hdone _ (quiet_applyVerificationSnapshot _ result clock) fun _ _ hsyncs => ?_
      exact absurd (hpurpose.symm.trans hsyncs.2.2) nofun

end MdSession

/-- The number of results a step collects. -/
def SessionStep.collects (s : MdSession) : SessionStep → Nat
  | .collectSnapshot _ => if s.results = [] then 0 else 1
  | _ => 0

/-- Every step. There are no more instruments than IDs. -/
theorem SessionStep.flow (debugText : MdStatus → Bytes) {s : MdSession}
    (hlength : s.states.length ≤ 2 ^ 32) (step : SessionStep) :
    s.Flow (step.run debugText s) (step.collects s) step.isReconnect := by
  cases step with
  | connecting clock => exact (MdSession.quiet_status debugText s _ clock).flow
  | connected clock =>
      exact ((MdSession.quiet_countConnection s).trans
        (MdSession.quiet_status debugText _ _ clock)).flow
  | message bytes clock => exact (MdSession.quiet_message s bytes clock).flow
  | collectSnapshot clock =>
      cases hresults : s.results with
      | nil =>
          rw [run, MdSession.collectSnapshot, collects, hresults]
          exact (MdSession.Quiet.refl s).flow
      | cons result results =>
          rw [collects, hresults]
          exact MdSession.flow_collectSnapshot debugText hresults clock
  | requestSnapshots now => exact MdSession.flow_requestSnapshots s now hlength
  | scheduleVerification clock after => exact MdSession.flow_scheduleVerification s clock after
  | takeAllDown clock => exact MdSession.flow_takeAllDown s clock
  | disconnected reason clock => exact (MdSession.quiet_status debugText s _ clock).flow
  | takeJob => exact MdSession.flow_takeJob s
  | finishJob response fetchedAt => exact MdSession.flow_finishJob s response fetchedAt

/-! ## §2 Runs -/

namespace MdSession

variable {debugText : MdStatus → Bytes} {s s' : MdSession}

/-- The number of results that steps collect. -/
def collected (debugText : MdStatus → Bytes) (s : MdSession) : List SessionStep → Nat
  | [] => 0
  | step :: steps => step.collects s + collected debugText (step.run debugText s) steps

/-- Steps change the shape of nothing. -/
theorem run_shape (hlength : s.states.length ≤ 2 ^ 32) (steps : List SessionStep) :
    SameShape s (s.run debugText steps) := by
  induction steps generalizing s with
  | nil => exact .refl s
  | cons step steps ih =>
      have hstep := (step.flow debugText hlength).shape
      exact hstep.trans (ih (by rw [hstep.length]; exact hlength))

/-- Requests are answered in the order in which they were sent: after steps, as many
requests as results were collected are gone from the front. -/
theorem run_inFlight (debugText : MdStatus → Bytes) (hlength : s.states.length ≤ 2 ^ 32) (steps : List SessionStep) :
    ∃ sent, (s.run debugText steps).inFlight =
      (s.inFlight ++ sent).drop (s.collected debugText steps) := by
  induction steps generalizing s with
  | nil => exact ⟨[], by simp [run, collected]⟩
  | cons step steps ih =>
      have hflow := step.flow debugText hlength
      obtain ⟨sent, hsent⟩ := ih (s := step.run debugText s) (by
        rw [hflow.shape.length]
        exact hlength)
      rw [show s.run debugText (step :: steps) = (step.run debugText s).run debugText steps from rfl,
        hsent, collected]
      generalize step.collects s = n at hflow
      generalize step.isReconnect = ended at hflow
      cases hflow with
      | sent requests _ hflight =>
          exact ⟨requests ++ sent, by rw [hflight, List.append_assoc, Nat.zero_add]⟩
      | collected _ _ hflight => exact ⟨sent, by rw [hflight, Nat.add_comm]; rfl⟩
      | ended _ hflight => exact ⟨sent, by rw [hflight, Nat.zero_add]⟩

/-- Of a session that lost `reconnects` connections: every request in flight is of
this connection or an earlier one, and an instrument that waits for a result will
get one. -/
structure Served (s : MdSession) (reconnects : Nat) : Prop where
  generation : s.generation.toNat = reconnects
  inFlight : ∀ r ∈ s.inFlight, r.generation.toNat ≤ reconnects
  requested : ∀ index, s.Requested index → ∃ r ∈ s.inFlight, r.Syncs index s.generation

theorem Flow.served {reconnects n : Nat} {ended : Bool} (hflow : Flow s s' n ended)
    (h : s.Served reconnects) (hlt : reconnects + ended.toNat < 2 ^ 64) :
    s'.Served (reconnects + ended.toNat) := by
  cases hflow with
  | sent requests _ hflight hgeneration hrequests hstates =>
      refine ⟨by rw [hgeneration]; exact h.generation, fun r hr => ?_, fun index hindex => ?_⟩
      · rw [hflight] at hr
        rcases List.mem_append.mp hr with hr | hr
        · exact h.inFlight r hr
        · rw [hrequests r hr, h.generation]
          exact le_rfl
      · rw [hgeneration, hflight]
        rcases hstates index hindex with hindex | ⟨r, hr, hsyncs⟩
        · obtain ⟨r, hr, hsyncs⟩ := h.requested index hindex
          exact ⟨r, List.mem_append_left _ hr, hsyncs⟩
        · exact ⟨r, List.mem_append_right _ hr, hsyncs⟩
  | collected request _ hflight hgeneration hstates =>
      refine ⟨by rw [hgeneration]; exact h.generation, fun r hr => ?_, fun index hindex => ?_⟩
      · exact h.inFlight r (by rw [hflight]; exact List.mem_cons_of_mem _ hr)
      · obtain ⟨hbefore, hother⟩ := hstates index hindex
        obtain ⟨r, hr, hsyncs⟩ := h.requested index hbefore
        rw [hflight] at hr
        rcases List.mem_cons.mp hr with rfl | hr
        · exact absurd hsyncs hother
        · exact ⟨r, hr, by rw [hgeneration]; exact hsyncs⟩
  | ended _ hflight hgeneration hstates =>
      refine ⟨?_, fun r hr => ?_, fun index hindex => absurd hindex (hstates index)⟩
      · rw [hgeneration, UInt64.toNat_add, h.generation]
        exact Nat.mod_eq_of_lt hlt
      · rw [hflight] at hr
        exact le_trans (h.inFlight r hr) (Nat.le_add_right _ _)

/-- The connections that steps lose. -/
def reconnects (steps : List SessionStep) : Nat := steps.countP SessionStep.isReconnect

theorem reconnects_cons (step : SessionStep) (steps : List SessionStep) :
    reconnects (step :: steps) = step.isReconnect.toNat + reconnects steps := by
  rw [reconnects, reconnects, List.countP_cons, Nat.add_comm]
  cases step.isReconnect <;> rfl

theorem reconnects_append (steps steps' : List SessionStep) :
    reconnects (steps ++ steps') = reconnects steps + reconnects steps' := List.countP_append

theorem Served.run (debugText : MdStatus → Bytes) {n : Nat} (h : s.Served n)
    (hlength : s.states.length ≤ 2 ^ 32) {steps : List SessionStep} (hlt : n + reconnects steps < 2 ^ 64) :
    (s.run debugText steps).Served (n + reconnects steps) := by
  induction steps generalizing s n with
  | nil => exact h
  | cons step steps ih =>
      rw [reconnects_cons] at hlt ⊢
      have hflow := step.flow debugText hlength
      have hserved := hflow.served h (by omega)
      rw [← Nat.add_assoc]
      exact ih hserved (by rw [hflow.shape.length]; exact hlength) (by omega)

/-- The oldest result is the oldest request's. -/
theorem inFlight_of_results {result : SnapshotResult} {results : List SnapshotResult}
    (h : s.results = result :: results) : s.inFlight.head? = some result.request := by
  rw [inFlight, h]
  rfl

/-- A result of another connection changes nothing. -/
theorem collectSnapshot_stale (clock : Readings)
    (h : ∀ result ∈ s.results.head?, result.generation ≠ s.generation) :
    s.collectSnapshot debugText clock = { s with results := s.results.tail } := by
  unfold collectSnapshot
  cases hresults : s.results with
  | nil =>
      show s = { s with results := [] }
      rw [← hresults]
  | cons result results =>
      dsimp only
      rw [if_pos (h result (by rw [hresults]; rfl)), List.tail_cons]

end MdSession

/-! ## §3 Session -/

namespace MdSession

variable {debugText : MdStatus → Bytes} {config : MdConfig} {instruments : InstrumentTable}
  {s : MdSession}

/-- A new session. -/
theorem new_eq {now : Instant} (h : MdSession.new config instruments now = .ok s) :
    ∃ books, MdBooks.new instruments config.sync config.maxLevelsPerMessage
        config.snapshotLimit.toNat = some books ∧
      s = ⟨config, books, instruments.instruments.map fun _ => .idle, [], none, [], 0, [], none,
        none, now, 0⟩ := by
  unfold MdSession.new at h
  split_ifs at h
  split at h
  · cases h
  · rename_i books hbooks
    exact ⟨books, hbooks, (Except.ok.inj h).symm⟩

/-- A session before its first step waits for nothing. -/
theorem Fresh.start (h : Fresh config instruments s) :
    s.Served 0 ∧ s.states.length = instruments.instruments.length := by
  have hnew : ∀ {s : MdSession} {now : Instant}, MdSession.new config instruments now = .ok s →
      s.Served 0 ∧ s.states.length = instruments.instruments.length := by
    intro s now hs
    obtain ⟨books, _, rfl⟩ := new_eq hs
    refine ⟨⟨rfl, nofun, fun index hindex => ?_⟩, List.length_map _⟩
    exact absurd hindex (idle_ne_requested _ index)
  cases h with
  | new hs => exact hnew hs
  | withJournal clock hs =>
      obtain ⟨hserved, hlength⟩ := hnew hs
      exact ⟨⟨hserved.generation, hserved.inFlight, hserved.requested⟩, hlength⟩

/-- What the state of an instrument says of its request. -/
theorem Served.state {n : Nat} (h : s.Served n) {id : InstrumentId} (hlt : id.index < s.states.length) :
    s.states[id.index]? = some .idle ∨ (∃ time, s.states[id.index]? = some (.retryAt time)) ∨
      ⟨id, s.generation, .sync⟩ ∈ s.inFlight := by
  cases hstate : s.states[id.index] with
  | idle => exact .inl (by rw [List.getElem?_eq_getElem hlt, hstate])
  | retryAt time => exact .inr (.inl ⟨time, by rw [List.getElem?_eq_getElem hlt, hstate]⟩)
  | requested =>
      obtain ⟨r, hr, hsyncs⟩ := h.requested id.index
        (by rw [Requested, List.getElem?_eq_getElem hlt, hstate])
      obtain ⟨i, generation, purpose⟩ := r
      obtain ⟨hi, rfl, rfl⟩ := hsyncs
      cases InstrumentId.index_inj.mp hi
      exact .inr (.inr hr)

/-- As long as not all requests that were in flight at the end of a connection have been
answered, the next result is of that connection. -/
theorem Served.stale_after {n : Nat} (h : s.Served n) (hlength : s.states.length ≤ 2 ^ 32)
    {clock : Readings} {after : List SessionStep} (hlt : n + 1 + reconnects after < 2 ^ 64)
    (hbefore : (s.takeAllDown clock).collected debugText after < s.inFlight.length) :
    ∀ result ∈ ((s.takeAllDown clock).run debugText after).results.head?,
      result.generation ≠ ((s.takeAllDown clock).run debugText after).generation := by
  have hflow := flow_takeAllDown s clock
  have hended : (s.takeAllDown clock).inFlight = s.inFlight := by
    cases hflow with
    | ended _ hflight => exact hflight
  have hlengthEnded : (s.takeAllDown clock).states.length ≤ 2 ^ 32 := by
    rw [hflow.shape.length]
    exact hlength
  have hnow := (hflow.served h (show n + 1 < 2 ^ 64 by omega)).run debugText hlengthEnded hlt
  obtain ⟨sent, hsent⟩ := run_inFlight debugText hlengthEnded after
  intro result hresult heq
  obtain ⟨results, hresults⟩ := List.head?_eq_some_iff.mp hresult
  -- The next result answers a request that was in flight when the connection ended.
  have hhead := inFlight_of_results hresults
  rw [hsent, hended, List.head?_drop, List.getElem?_append_left hbefore] at hhead
  have hold := h.inFlight _ (List.mem_of_getElem? hhead)
  have hgeneration := hnow.generation
  rw [show result.request.generation = result.generation from rfl, heq, hgeneration] at hold
  have hone : (true : Bool).toNat = 1 := rfl
  omega

end MdSession

open MdSession in
/-- The session never strands an instrument: one whose book is not live has no
request outstanding, or waits for its retry, or there is a request of this
connection whose result will bring it on. And no result of a request sent before a
connection ended is applied afterwards: requests are answered in order, so as long
as not all that were in flight at the end of the connection have been collected,
the next result answers one of them, and collecting it changes nothing. -/
theorem no_instrument_stranded (debugText : MdStatus → Bytes) {config : MdConfig}
    {instruments : InstrumentTable} {s₀ : MdSession} (hfresh : Fresh config instruments s₀)
    (steps : List SessionStep) (hreconnects : reconnects steps < 2 ^ 64) :
    (∀ instrument ∈ instruments.instruments,
      (s₀.run debugText steps).books.isLive instrument.id = false →
      (s₀.run debugText steps).states[instrument.id.index]? = some .idle ∨
      (∃ time, (s₀.run debugText steps).states[instrument.id.index]? = some (.retryAt time)) ∨
      ⟨instrument.id, (s₀.run debugText steps).generation, .sync⟩ ∈
        (s₀.run debugText steps).inFlight) ∧
    ∀ before clock after, steps = before ++ .takeAllDown clock :: after →
      ((s₀.run debugText before).takeAllDown clock).collected debugText after <
        (s₀.run debugText before).inFlight.length →
      ∀ clock', (s₀.run debugText steps).collectSnapshot debugText clock' =
        { s₀.run debugText steps with results := (s₀.run debugText steps).results.tail } := by
  obtain ⟨hserved, hstates⟩ := hfresh.start
  have hlength : s₀.states.length ≤ 2 ^ 32 := by
    rw [hstates]
    exact length_le_of_valid instruments
  have hrun : ∀ steps, reconnects steps < 2 ^ 64 →
      (s₀.run debugText steps).Served (reconnects steps) := by
    intro steps hlt
    have hsteps := hserved.run debugText hlength (show 0 + reconnects steps < 2 ^ 64 by omega)
    rwa [Nat.zero_add] at hsteps
  constructor
  · intro instrument hmem _
    obtain ⟨n, hn⟩ := List.mem_iff_getElem?.mp hmem
    have hid := InstrumentTable.index_of_check _ _ instruments.valid hn
    rw [List.length_nil, Nat.zero_add] at hid
    have hlt : instrument.id.index < (s₀.run debugText steps).states.length := by
      rw [(run_shape hlength steps).length, hstates, hid]
      exact (List.getElem?_eq_some_iff.mp hn).1
    exact (hrun steps hreconnects).state hlt
  · rintro before clock after rfl hbefore clock'
    rw [reconnects_append, reconnects_cons] at hreconnects
    have hone : (SessionStep.takeAllDown clock).isReconnect.toNat = 1 := rfl
    have hsplit : s₀.run debugText (before ++ .takeAllDown clock :: after) =
        ((s₀.run debugText before).takeAllDown clock).run debugText after := by
      rw [run, List.foldl_append]
      rfl
    have hlengthBefore : (s₀.run debugText before).states.length ≤ 2 ^ 32 := by
      rw [(run_shape hlength before).length]
      exact hlength
    rw [hsplit]
    exact collectSnapshot_stale clock'
      ((hrun before (by omega)).stale_after hlengthBefore (by omega) hbefore)

/-- A session for the instrument. -/
def btcConfig : MdConfig where
  snapshotLimit := 10
  sync := ⟨4, 4, 4⟩
  maxLevelsPerMessage := 10
  snapshotRetry := 2
  verifyEvery := some 60
  verifyTimeout := 30
  levels_le := by decide
  messages_le := by decide
  updates_le := by decide
  perMessage_le := by decide

def btcSession : MdSession :=
  ⟨btcConfig, btcBooks ⟨4, 4, 4⟩, [.idle], [], none, [], 0, [], none, none, 0, 0⟩

/-- Clocks that stand still. -/
def stopped : Readings := ⟨0, 0, ⟨0⟩⟩

/-- The connection ends while the snapshot thread works on a request. -/
def lateSteps : List SessionStep :=
  [.requestSnapshots 0, .takeJob, .takeAllDown stopped, .requestSnapshots 1,
    .finishJob (.error ⟨"late", none⟩) ⟨0⟩]

theorem btcSession_fresh : MdSession.Fresh btcConfig btcTable btcSession :=
  .new (show MdSession.new btcConfig btcTable 0 = .ok btcSession from rfl)

theorem no_instrument_stranded_late :
    (btcSession.run (fun _ => []) lateSteps).states = [.requested] ∧
    ⟨⟨0⟩, 1, .sync⟩ ∈ (btcSession.run (fun _ => []) lateSteps).inFlight ∧
    (btcSession.run (fun _ => []) lateSteps).collectSnapshot (fun _ => []) stopped =
      { btcSession.run (fun _ => []) lateSteps with results := [] } := by
  obtain ⟨hstates, hstale⟩ := no_instrument_stranded (fun _ => []) btcSession_fresh lateSteps
    (by decide)
  refine ⟨by decide, ?_, hstale [.requestSnapshots 0, .takeJob] stopped _ rfl (by decide) stopped⟩
  rcases hstates btcUsdt (by decide) (by decide) with hidle | ⟨time, hretry⟩ | hflight
  · exact absurd hidle (by decide)
  · have hrequested : (btcSession.run (fun _ => []) lateSteps).states[btcUsdt.id.index]? =
        some .requested := by decide
    rw [hrequested] at hretry
    cases hretry
  · exact hflight

end Bowst.Venue
