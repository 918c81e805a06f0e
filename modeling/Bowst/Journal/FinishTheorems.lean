/-
Bowst.Journal.FinishTheorems — `finish` returns, and with every record.

The writer thread breaks out of its loop when it was told to stop before it found the ring
empty. With the producer stopped before, nothing is written behind that moment, so the
ring is empty for good. Each step of the thread uses up work: a record in the ring, a
stage of its loop, or an access of `read_with`.

  §1 The end  — what the thread leaves behind.
  §2 Its time — the work left.
  §3 `finish` — both, for the handle.
-/
import Bowst.Journal.JournalSystemTheorems

namespace Bowst.Journal

open Bowst.Lib
open Bowst.Core

namespace JournalSystem

open FileSink (recordsOn)

variable {crc : Bytes → UInt32} {dir : List JournalFile} {sys : JournalSystem}

/-! ## §1 The end -/

/-- After `finish`, with the producer quiet: the writer thread ends only on an empty ring, and
its result has every drop. -/
structure Ended (sys : JournalSystem) : Prop where
  idle : sys.producer.pc = .idle
  drained : ∀ result, sys.pc = .done result → sys.producer.run.returned = sys.producer.run.written
  dropped : ∀ stats, sys.pc = .done (.ok stats) → stats.dropped = sys.producer.dropped

theorem Ended.drain (he : sys.Ended) (h : sys.Inv crc dir) {stopping wroteAny : Bool}
    (hpc : sys.pc = .draining stopping wroteAny)
    (hbusy : sys.producer.run.ring.consumer.pc ≠ .idle) (moment : WriterMoment) :
    (sys.drain crc moment stopping wroteAny).Ended := by
  have hreturned : (sys.producer.step .consumer).run.returned =
      sys.producer.run.returned ++ recordsReturned sys.producer.run.ring.stepConsumer.2 :=
    consumer_returned hbusy
  have hwritten : (sys.producer.step .consumer).run.written = sys.producer.run.written :=
    (RingRun.consumer_frame _).2
  unfold JournalSystem.drain
  cases hres : sys.producer.run.ring.stepConsumer.2 with
  | none =>
      refine ⟨he.idle, fun result hdone => ?_, fun stats hdone => ?_⟩
      · exact absurd (hpc.symm.trans hdone) (by simp)
      · exact absurd (hpc.symm.trans hdone) (by simp)
  | some got =>
      cases got with
      | none =>
          rw [hres, recordsReturned_empty, List.append_nil] at hreturned
          have hempty := h.producer.counts.ring.isFifo.emptyRead hres
          have hproducer := endDrain_producer { sys with producer := sys.producer.step .consumer } moment
            stopping wroteAny
          have hends := endDrain_dropped { sys with producer := sys.producer.step .consumer } moment
            stopping wroteAny
          simp only
          refine ⟨?_, fun _ _ => ?_, fun stats hdone => ?_⟩
          · rw [hproducer]
            exact he.idle
          · rw [hproducer, hreturned, hwritten]
            exact hempty
          · rw [hproducer, hends.2 stats hdone]
            exact h.drops
      | some bytes =>
          simp only
          refine ⟨he.idle, fun result hdone => ?_, fun stats hdone => ?_⟩
          · cases hdone
          · cases hdone

/-- One event other than a call of `append`. -/
theorem Ended.step (he : sys.Ended) (h : sys.Inv crc dir) (event : JournalEvent)
    (hquiet : ∀ call, event ≠ .append call) : (sys.step crc event).Ended := by
  cases event with
  | append call => exact absurd rfl (hquiet call)
  | producer =>
      have hidle := h.producer.pc
      rw [he.idle] at hidle
      have hsame : sys.producer.step .producer = sys.producer := JournalProducer.stepProducer_idle hidle
      show (shareDrops { sys with producer := sys.producer.step .producer }).Ended
      rw [hsame]
      exact ⟨he.idle, he.drained, he.dropped⟩
  | finish => exact ⟨he.idle, he.drained, he.dropped⟩
  | writer moment =>
      show (sys.stepWriter crc moment).Ended
      unfold JournalSystem.stepWriter
      cases hpc : sys.pc with
      | top =>
          refine ⟨he.idle, fun result hdone => ?_, fun stats hdone => ?_⟩
          · cases hdone
          · cases hdone
      | draining stopping wroteAny =>
          by_cases hidle : sys.producer.run.ring.consumer.pc = .idle
          · simp only [hidle]
            refine ⟨he.idle, fun result hdone => ?_, fun stats hdone => ?_⟩
            · cases hdone
            · cases hdone
          · have hdrain := he.drain h hpc hidle moment
            cases hconsumer : sys.producer.run.ring.consumer.pc with
            | idle => exact absurd hconsumer hidle
            | _ =>
                simp only
                exact hdrain
      | done result =>
          simp only
          exact he

theorem Ended.steps : ∀ {events : List JournalEvent} {sys : JournalSystem}, sys.Ended →
    sys.Inv crc dir → (∀ call, .append call ∉ events) → (sys.steps crc events).Ended := by
  intro events
  induction events with
  | nil => exact fun he _ _ => he
  | cons event rest ih =>
      intro sys he h hquiet
      have hevent : ∀ call, event ≠ .append call := by
        rintro call rfl
        exact hquiet call List.mem_cons_self
      refine ih (he.step h event hevent) (h.step event ?_) (fun call hmem => ?_)
      · exact fun call hcall => absurd hcall (hevent call)
      · exact hquiet call (List.mem_cons_of_mem _ hmem)

/-- The flag is set by `finish` alone. -/
theorem steps_stop : ∀ {events : List JournalEvent} {sys : JournalSystem}, .finish ∉ events →
    (sys.steps crc events).stop = sys.stop := by
  intro events
  induction events with
  | nil => exact fun _ => rfl
  | cons event rest ih =>
      intro sys hfinish
      have hrest : .finish ∉ rest := fun hmem => hfinish (List.mem_cons_of_mem _ hmem)
      refine (ih hrest).trans ?_
      cases event with
      | append call => rfl
      | producer => rfl
      | finish => exact absurd List.mem_cons_self hfinish
      | writer moment => exact stepWriter_stop moment

/-! ## §2 Its time -/

/-- How far the thread is from its end, once it is told to stop. -/
def phase : WriterPc → Nat
  | .done _ => 0
  | .draining true false => 1
  | .top => 2
  | .draining _ _ => 3

theorem phase_le (pc : WriterPc) : phase pc ≤ 3 := by
  unfold phase
  split <;> omega

theorem phase_draining (stopping wroteAny : Bool) :
    1 ≤ phase (.draining stopping wroteAny) ∧
      ((stopping && !wroteAny) = false → phase (.draining stopping wroteAny) = 3) := by
  cases stopping <;> cases wroteAny <;> simp [phase]

/-- Steps that a `read_with` may still take, with the one that calls it. -/
def readLeft (run : RingRun) : Nat :=
  match run.ring.consumer.pc with
  | .idle => 7
  | _ => 6 - run.readSteps

theorem readLeft_le (run : RingRun) : readLeft run ≤ 7 := by
  unfold readLeft
  split <;> omega

theorem readLeft_busy (run : RingRun) (hbusy : run.ring.consumer.pc ≠ .idle) :
    readLeft run = 6 - run.readSteps := by
  unfold readLeft
  split
  · exact absurd ‹_› hbusy
  · rfl

/-- Records in the ring. -/
def queued (sys : JournalSystem) : Nat :=
  sys.producer.run.written.length - sys.producer.run.returned.length

/-- A bound on the steps that the writer thread may still take. -/
def workLeft (sys : JournalSystem) : Nat :=
  match sys.pc with
  | .done _ => 0
  | pc => 32 * sys.queued + 8 * phase pc + readLeft sys.producer.run

theorem workLeft_le (sys : JournalSystem) : sys.workLeft ≤ 32 * sys.queued + 31 := by
  have hphase := phase_le sys.pc
  have hread := readLeft_le sys.producer.run
  unfold workLeft
  split
  · omega
  · omega

theorem workLeft_eq (pc : WriterPc) (hpc : sys.pc = pc) (hnot : ∀ result, pc ≠ .done result) :
    sys.workLeft = 32 * sys.queued + 8 * phase pc + readLeft sys.producer.run := by
  subst hpc
  unfold workLeft
  split
  · exact absurd ‹_› (hnot _)
  · rfl

theorem read_started (run : RingRun) (hidle : run.ring.consumer.pc = .idle) :
    readLeft (run.step .read) = 6 := by
  simp only [RingRun.step, hidle]
  unfold BytesRing.enterRead
  split_ifs <;> rfl

/-- An access that does not end `read_with` leaves it in progress. -/
theorem stepConsumer_busy {run : RingRun} (h : run.Inv) (hbusy : run.ring.consumer.pc ≠ .idle)
    (hnone : run.ring.stepConsumer.2 = none) : run.ring.stepConsumer.1.consumer.pc ≠ .idle := by
  cases hpc : run.ring.consumer.pc with
  | idle => exact absurd hpc hbusy
  | loadTail =>
      simp only [BytesRing.stepConsumer, hpc, BytesRing.loadTail] at hnone ⊢
      split_ifs at hnone ⊢
      simp [BytesRing.setConsumerPc]
  | readHeader =>
      simp only [BytesRing.stepConsumer, hpc, BytesRing.readHeader]
      split
      · split_ifs <;> simp [BytesRing.setConsumerPc]
      · simp [BytesRing.setConsumerPc]
  | storeSkip =>
      simp only [BytesRing.stepConsumer, hpc, BytesRing.storeSkip, BytesRing.enterRead]
      split_ifs <;> simp [BytesRing.setConsumerPc]
  | readPayload len =>
      simp only [BytesRing.stepConsumer, hpc, BytesRing.readPayload]
      split <;> simp [BytesRing.setConsumerPc]
  | storeHead len record => simp [BytesRing.stepConsumer, hpc] at hnone
  | unreachable => exact absurd hpc h.isFifo.consumerInBounds

/-- An access of `read_with` that does not end it brings the end nearer. -/
theorem consumer_started {run : RingRun} (h : run.Inv) (hbusy : run.ring.consumer.pc ≠ .idle)
    (hnone : run.ring.stepConsumer.2 = none) :
    readLeft (run.step .consumer) + 1 ≤ readLeft run := by
  have hsteps := h.isFifo.readEnds.1
  have hstep : run.step .consumer = run.afterRead run.ring.stepConsumer := by
    cases hpc : run.ring.consumer.pc with
    | idle => exact absurd hpc hbusy
    | _ => simp only [RingRun.step, hpc]
  rw [hstep, readLeft_busy run hbusy, readLeft_busy (run.afterRead _) (stepConsumer_busy h hbusy hnone)]
  have hcount : (run.afterRead run.ring.stepConsumer).readSteps = run.readSteps + 1 := by
    simp [RingRun.afterRead, hnone]
  rw [hcount]
  omega

theorem queued_consumer (h : sys.Inv crc dir) (hbusy : sys.producer.run.ring.consumer.pc ≠ .idle)
    (pc : WriterPc) (sink : FileSink) :
    queued { sys with producer := sys.producer.step .consumer, pc, sink } +
      (recordsReturned sys.producer.run.ring.stepConsumer.2).length = sys.queued := by
  have hreturned : (sys.producer.step .consumer).run.returned =
      sys.producer.run.returned ++ recordsReturned sys.producer.run.ring.stepConsumer.2 :=
    consumer_returned hbusy
  have hwritten : (sys.producer.step .consumer).run.written = sys.producer.run.written :=
    (RingRun.consumer_frame _).2
  have hle := h.reads.2.counts.ring.isFifo.inOrder.length_le
  unfold queued
  simp only
  rw [hreturned, hwritten, List.length_append] at hle ⊢
  omega

theorem endDrain_work (sys : JournalSystem) (moment : WriterMoment) (stopping wroteAny : Bool) :
    (sys.endDrain moment stopping wroteAny).workLeft ≤
      if (stopping && !wroteAny) = true then 0 else 32 * sys.queued + 16 + readLeft sys.producer.run := by
  unfold endDrain
  by_cases hend : (stopping && !wroteAny) = true
  · simp only [if_pos hend]
    exact le_rfl
  · simp only [if_neg hend]
    exact le_rfl

/-- An access of `read_with` does a part of the work, or takes a record, or ends a stage. -/
theorem drain_work (h : sys.Inv crc dir) {stopping wroteAny : Bool}
    (hpc : sys.pc = .draining stopping wroteAny)
    (hbusy : sys.producer.run.ring.consumer.pc ≠ .idle) (moment : WriterMoment) :
    (sys.drain crc moment stopping wroteAny).workLeft + 1 ≤
      32 * sys.queued + 8 * phase (.draining stopping wroteAny) + readLeft sys.producer.run := by
  obtain ⟨hphase, hphase3⟩ := phase_draining stopping wroteAny
  have hqueued := queued_consumer h hbusy
  have hleft : 1 ≤ readLeft sys.producer.run := by
    rw [readLeft_busy _ hbusy]
    have := h.producer.counts.ring.isFifo.readEnds.1
    omega
  have hafter := readLeft_le (sys.producer.step .consumer).run
  unfold drain
  cases hres : sys.producer.run.ring.stepConsumer.2 with
  | none =>
      have hnearer : readLeft (sys.producer.step .consumer).run + 1 ≤ readLeft sys.producer.run :=
        consumer_started h.producer.counts.ring hbusy hres
      have hsame := hqueued (.draining stopping wroteAny) sys.sink
      rw [hres] at hsame
      simp only [recordsReturned_none, List.length_nil, Nat.add_zero] at hsame
      simp only [hpc]
      rw [workLeft_eq (.draining stopping wroteAny) rfl (by simp), hsame]
      show _ + readLeft (sys.producer.step .consumer).run + 1 ≤ _
      omega
  | some got =>
      cases got with
      | none =>
          have hsame := hqueued sys.pc sys.sink
          rw [hres] at hsame
          simp only [recordsReturned_empty, List.length_nil, Nat.add_zero] at hsame
          have hwork := endDrain_work { sys with producer := sys.producer.step .consumer } moment
            stopping wroteAny
          rw [hsame] at hwork
          simp only
          by_cases hend : (stopping && !wroteAny) = true
          · rw [if_pos hend] at hwork
            omega
          · rw [if_neg hend] at hwork
            have hthree := hphase3 (by simpa using hend)
            simp only at hwork
            omega
      | some bytes =>
          have hless := hqueued (.draining stopping true) (sys.sink.write crc bytes moment.now)
          rw [hres] at hless
          simp only [recordsReturned_some, List.length_singleton] at hless
          simp only
          rw [workLeft_eq (.draining stopping true) rfl (by simp)]
          have hphase' := phase_le (.draining stopping true)
          show _ + readLeft (sys.producer.step .consumer).run + 1 ≤ _
          omega

/-- A step of the writer thread brings its end nearer. -/
theorem stepWriter_work (h : sys.Inv crc dir) (hstop : sys.stop = true)
    (hnot : ∀ result, sys.pc ≠ .done result) (moment : WriterMoment) :
    (sys.stepWriter crc moment).workLeft + 1 ≤ sys.workLeft := by
  rw [workLeft_eq sys.pc rfl hnot]
  unfold stepWriter
  cases hpc : sys.pc with
  | done result => exact absurd hpc (hnot result)
  | top =>
      show workLeft { sys with pc := .draining sys.stop false } + 1 ≤ _
      rw [hstop, workLeft_eq (.draining true false) rfl (by simp)]
      show 32 * sys.queued + 8 * 1 + readLeft sys.producer.run + 1 ≤
        32 * sys.queued + 8 * 2 + readLeft sys.producer.run
      omega
  | draining stopping wroteAny =>
      by_cases hidle : sys.producer.run.ring.consumer.pc = .idle
      · simp only [hidle]
        rw [workLeft_eq (.draining stopping wroteAny) rfl (by simp)]
        have hsix : readLeft (sys.producer.step .read).run = 6 := read_started _ hidle
        have hseven : readLeft sys.producer.run = 7 := by
          simp [readLeft, hidle]
        have hqueued : queued { sys with producer := sys.producer.step .read, pc := .draining stopping wroteAny } =
            sys.queued := by
          unfold queued
          show (sys.producer.run.step .read).written.length - (sys.producer.run.step .read).returned.length = _
          rw [(RingRun.read_frame _).2, read_returned]
        rw [hqueued]
        show _ + readLeft (sys.producer.step .read).run + 1 ≤ _
        omega
      · have hdrain := drain_work h hpc hidle moment
        cases hconsumer : sys.producer.run.ring.consumer.pc with
        | idle => exact absurd hconsumer hidle
        | _ =>
            simp only
            exact hdrain

theorem workLeft_eq_zero (hzero : sys.workLeft = 0) : ∃ result, sys.pc = .done result := by
  by_contra hnot
  have hpos : 1 ≤ phase sys.pc := by
    cases hpc : sys.pc with
    | done result => exact absurd ⟨result, hpc⟩ hnot
    | top => decide
    | draining stopping wroteAny => exact (phase_draining stopping wroteAny).1
  rw [workLeft_eq sys.pc rfl (fun result hpc => hnot ⟨result, hpc⟩)] at hzero
  omega

theorem stepWriter_done {result : Except IoError FinalStats} (hdone : sys.pc = .done result)
    (moment : WriterMoment) : sys.stepWriter crc moment = sys := by
  unfold stepWriter
  rw [hdone]

/-- A producer that is not in a call changes nothing. -/
theorem stepProducer_quiet (h : sys.Inv crc dir) (hidle : sys.producer.pc = .idle) :
    sys.step crc .producer = sys := by
  have hring := h.producer.pc
  rw [hidle] at hring
  have hsame : sys.producer.step .producer = sys.producer := JournalProducer.stepProducer_idle hring
  show shareDrops { sys with producer := sys.producer.step .producer } = sys
  rw [hsame, shareDrops, ← h.drops]

/-- The steps of the writer thread among events. -/
def writerSteps : List JournalEvent → Nat
  | [] => 0
  | .writer _ :: rest => writerSteps rest + 1
  | _ :: rest => writerSteps rest

/-- With the producer quiet the work left is done, whatever happens between. -/
theorem steps_end : ∀ {events : List JournalEvent} {sys : JournalSystem}, sys.Ended → sys.Inv crc dir →
    sys.stop = true → (∀ call, .append call ∉ events) → sys.workLeft ≤ writerSteps events →
      ∃ result, (sys.steps crc events).pc = .done result := by
  intro events
  induction events with
  | nil => exact fun _ _ _ _ hwork => workLeft_eq_zero (Nat.le_zero.mp hwork)
  | cons event rest ih =>
      intro sys he h hstop hquiet hwork
      have hevent : ∀ call, event ≠ .append call := by
        rintro call rfl
        exact hquiet call List.mem_cons_self
      have hrest : ∀ call, .append call ∉ rest := fun call hmem => hquiet call (List.mem_cons_of_mem _ hmem)
      have he' := he.step h event hevent
      have h' := h.step event (fun call hcall => absurd hcall (hevent call))
      cases event with
      | append call => exact absurd rfl (hevent call)
      | producer =>
          rw [stepProducer_quiet h he.idle] at he' h'
          show ∃ result, ((sys.step crc .producer).steps crc rest).pc = .done result
          rw [stepProducer_quiet h he.idle]
          exact ih he' h' hstop hrest hwork
      | finish => exact ih he' h' rfl hrest hwork
      | writer moment =>
          refine ih he' h' ((stepWriter_stop moment).trans hstop) hrest ?_
          show (sys.stepWriter crc moment).workLeft ≤ writerSteps rest
          have hwork' : sys.workLeft ≤ writerSteps rest + 1 := hwork
          by_cases hdone : ∃ result, sys.pc = .done result
          · obtain ⟨result, hresult⟩ := hdone
            rw [stepWriter_done hresult moment, workLeft]
            simp only [hresult]
            exact Nat.zero_le _
          · have hless := stepWriter_work h hstop (fun result hpc => hdone ⟨result, hpc⟩) moment
            omega

end JournalSystem

/-! ## §3 `finish` -/

open FileSink (recordsOn sampleSink)

/-- A run up to `finish`, and what was so before it. -/
theorem finish_spec {crc : Bytes → UInt32} {dir : List JournalFile}
    {capacity segmentBytes : Nat} {created : UInt64} {plan : List (Option Nat)} {r : BytesRing}
    {sink : FileSink} (hr : BytesRing.channel capacity = .ok r)
    (hstart : FileSink.start dir segmentBytes created plan = .ok sink) {before : List JournalEvent}
    (hkind : ∀ call, .append call ∈ before → call.header.kind ≠ Kind.gap) (hfinish : .finish ∉ before)
    (hidle : ((JournalSystem.start r sink).steps crc before).producer.pc = .idle) :
    let called := ((JournalSystem.start r sink).steps crc before).step crc .finish
    called.Inv crc dir ∧ called.Ended ∧ ∀ after,
      (JournalSystem.start r sink).steps crc (before ++ .finish :: after) = called.steps crc after := by
  intro called
  have hinv : ((JournalSystem.start r sink).steps crc before).Inv crc dir :=
    (JournalSystem.start_inv hr hstart).steps hkind
  have hstop : ((JournalSystem.start r sink).steps crc before).stop = false :=
    JournalSystem.steps_stop hfinish
  -- Before the flag is set the thread has not ended.
  have hnot : ∀ result, ((JournalSystem.start r sink).steps crc before).pc ≠ .done result := by
    intro result hpc
    rw [hinv.stop_of_done hpc] at hstop
    cases hstop
  refine ⟨hinv.step .finish (by simp), ⟨hidle, ?_, ?_⟩, fun after => List.foldl_append ..⟩
  · exact fun result hpc => absurd hpc (hnot result)
  · exact fun stats hpc => absurd hpc (hnot _)

/-- **`finish` keeps every record.** Once it was called, with the producer stopped before: if
the writer thread ends without an error, what is on disk and the drops that no gap record
reports yet are all that the calls of `append` returned, and the result counts the drops. -/
theorem finish_keeps_every_record (crc : Bytes → UInt32) {dir : List JournalFile}
    {capacity segmentBytes : Nat} {created : UInt64} {plan : List (Option Nat)} {r : BytesRing}
    {sink : FileSink} (hr : BytesRing.channel capacity = .ok r)
    (hstart : FileSink.start dir segmentBytes created plan = .ok sink)
    (before after : List JournalEvent)
    (hkind : ∀ call, .append call ∈ before → call.header.kind ≠ Kind.gap)
    (hfinish : .finish ∉ before)
    (hidle : ((JournalSystem.start r sink).steps crc before).producer.pc = .idle)
    (hquiet : ∀ call, .append call ∉ after) {stats : FinalStats} :
    let sys := (JournalSystem.start r sink).steps crc (before ++ .finish :: after)
    let outcomes := sys.producer.appended.map outcome
    outcomes.count none < 2 ^ 64 → sys.pc = .done (.ok stats) →
      (recordsOn crc sys.sink.disk).flatMap expandRecord ++
          List.replicate sys.producer.pendingGap none = outcomes ∧
        stats.dropped = outcomes.count none := by
  intro sys outcomes hlost hdone
  obtain ⟨hcalled, hended', hsteps⟩ := finish_spec hr hstart hkind hfinish hidle
  have hinv : sys.Inv crc dir := by
    rw [show sys = _ from hsteps after]
    exact hcalled.steps (fun call hmem => absurd hmem (hquiet call))
  have hended : sys.Ended := by
    rw [show sys = _ from hsteps after]
    exact hended'.steps hcalled hquiet
  have hmod : sys.producer.lost < u64Modulus := by
    rw [u64Modulus]
    exact hlost
  have haccounted := hinv.producer.counts.accounted hmod
  rw [JournalProducer.Accounted, ← hended.drained _ hdone] at haccounted
  obtain ⟨taken, htaken, hsink⟩ := hinv.sink
  rw [hdone] at hsink
  refine ⟨?_, (hended.dropped stats hdone).trans (hinv.dropped_eq hmod)⟩
  rw [hsink.all_records, JournalSystem.flatMap_expandRecord, htaken]
  exact haccounted

/-- A sink over an empty directory in a run in which nothing fails. -/
def soundSink : FileSink := { sampleSink with faults := ⟨[], 0⟩ }

theorem soundSink_start : FileSink.start [] 1000 5 [] = .ok soundSink := by
  decide +kernel

theorem pressedEvents_quiet (n : Nat) :
    .finish ∉ pressedEvents ∧ ∀ call, .append call ∉ writerEvents n := by
  simp [pressedEvents, appendEvents, writerEvents]

/-- Three records and one gap record. -/
def pressedStats : FinalStats := ⟨⟨4, 160, 1, 0⟩, 1⟩

/-- The run up to `finish`, and behind it to the end. -/
theorem pressed_run :
    ((JournalSystem.start (.empty 128) soundSink).steps crc32 pressedEvents).producer.pc = .idle ∧
      ((JournalSystem.start (.empty 128) soundSink).steps crc32 pressedEvents).queued = 2 ∧
        ((((JournalSystem.start (.empty 128) soundSink).steps crc32
          (pressedEvents ++ .finish :: writerEvents 40)).producer.appended).map outcome).count none = 1 ∧
          ((JournalSystem.start (.empty 128) soundSink).steps crc32
            (pressedEvents ++ .finish :: writerEvents 40)).pc = .done (.ok pressedStats) := by
  decide +kernel

theorem sample_finish_keeps_every_record :
    let sys := (JournalSystem.start (.empty 128) soundSink).steps crc32
      (pressedEvents ++ .finish :: writerEvents 40)
    sys.pc = .done (.ok pressedStats) ∧
      (recordsOn crc32 sys.sink.disk).flatMap expandRecord ++
          List.replicate sys.producer.pendingGap none = sys.producer.appended.map outcome ∧
        pressedStats.dropped = (sys.producer.appended.map outcome).count none := by
  obtain ⟨hidle, -, hlost, hdone⟩ := pressed_run
  exact ⟨hdone, finish_keeps_every_record crc32 channel_128 soundSink_start pressedEvents
    (writerEvents 40) pressedEvents_kind (pressedEvents_quiet 40).1 hidle
    (pressedEvents_quiet 40).2 (lt_of_eq_of_lt hlost (by norm_num)) hdone⟩

/-- **`finish` returns.** Once it was called, with the producer stopped before, the writer thread
ends within 32 steps for every record in the ring and 31 more, whatever the timers and the
disk do. -/
theorem finish_returns (crc : Bytes → UInt32) {dir : List JournalFile}
    {capacity segmentBytes : Nat} {created : UInt64} {plan : List (Option Nat)} {r : BytesRing}
    {sink : FileSink} (hr : BytesRing.channel capacity = .ok r)
    (hstart : FileSink.start dir segmentBytes created plan = .ok sink)
    (before after : List JournalEvent)
    (hkind : ∀ call, .append call ∈ before → call.header.kind ≠ Kind.gap)
    (hfinish : .finish ∉ before)
    (hidle : ((JournalSystem.start r sink).steps crc before).producer.pc = .idle)
    (hquiet : ∀ call, .append call ∉ after)
    (hlong : 32 * ((JournalSystem.start r sink).steps crc before).queued + 31 ≤
      JournalSystem.writerSteps after) :
    ∃ result, ((JournalSystem.start r sink).steps crc (before ++ .finish :: after)).pc = .done result := by
  obtain ⟨hcalled, hended, hsteps⟩ := finish_spec hr hstart hkind hfinish hidle
  rw [hsteps after]
  exact JournalSystem.steps_end hended hcalled rfl hquiet ((JournalSystem.workLeft_le _).trans hlong)

theorem sample_finish_returns :
    ((JournalSystem.start (.empty 128) soundSink).steps crc32 pressedEvents).queued = 2 ∧
      ∃ result, ((JournalSystem.start (.empty 128) soundSink).steps crc32
        (pressedEvents ++ .finish :: writerEvents 95)).pc = .done result := by
  obtain ⟨hidle, hqueued, -, -⟩ := pressed_run
  refine ⟨hqueued, finish_returns crc32 channel_128 soundSink_start pressedEvents
    (writerEvents 95) pressedEvents_kind (pressedEvents_quiet 95).1 hidle
    (pressedEvents_quiet 95).2 ?_⟩
  rw [hqueued]
  simp [writerEvents, JournalSystem.writerSteps, List.replicate]

end Bowst.Journal
