/-
Bowst.Journal.JournalSystemTheorems — what `append` returned is what the journal holds.

Every record that reaches the ring is one that a journal can hold, so the sink takes
records in the order of the ring, and each side's accounting carries over: the disk has
the first of the records taken, and these, gap records expanded, are the first of what
the calls of `append` returned.

  §1 Records   — what gets into the ring.
  §2 Drops     — the sink leaves the count alone.
  §3 Invariant — both sides' accounts.
  §4 Steps     — one event, and runs.
  §5 Journal   — what it holds.
-/
import Mathlib.Data.List.Infix
import Bowst.Journal.FileSinkTheorems
import Bowst.Journal.JournalSystem
import Bowst.Journal.ProducerTheorems

namespace Bowst.Journal

open Bowst.Lib
open Bowst.Core

/-! ## §1 Records -/

/-- The record's bytes in the ring. -/
def FittingRecord.ringBytes (record : FittingRecord) : Bytes :=
  ringRecord record.header record.payload

theorem length_flatten (parts : List Bytes) : parts.flatten.length = payloadLen parts :=
  List.length_flatten

/-- What `append` encodes is the record of the parts' concatenation. -/
theorem encodeRecord_eq (header : RecordHeader) (parts : List Bytes) :
    encodeRecord header parts = ringRecord header parts.flatten := by
  rw [ringRecord, length_flatten, encodeRecord, encodeRecordHeader_eq _ _ (List.length_replicate ..)]

theorem encodeRecord_ringBytes (header : RecordHeader) {parts : List Bytes}
    (h : payloadLen parts ≤ maxPayload) :
    ∃ record : FittingRecord, encodeRecord header parts = record.ringBytes := by
  have hfits : (⟨header, parts.flatten⟩ : Record).Fits := by
    rw [Record.Fits, length_flatten]
    exact h
  exact ⟨⟨⟨header, parts.flatten⟩, hfits⟩, encodeRecord_eq header parts⟩

/-- Records that a journal can hold. -/
def AllFit (written : List Bytes) : Prop :=
  ∀ bytes ∈ written, ∃ record : FittingRecord, bytes = record.ringBytes

theorem AllFit.snoc {written : List Bytes} (h : AllFit written) (header : RecordHeader)
    {parts : List Bytes} (hparts : payloadLen parts ≤ maxPayload) :
    AllFit (written ++ [encodeRecord header parts]) := by
  intro bytes hmem
  rcases List.mem_append.mp hmem with hold | hnew
  · exact h bytes hold
  · rw [List.mem_singleton.mp hnew]
    exact encodeRecord_ringBytes header hparts

/-- The payload of a gap record. -/
theorem payloadLen_gap (count : Nat) : payloadLen [toLe 8 count] ≤ maxPayload := by
  simp [payloadLen, maxPayload]

namespace JournalProducer

/-- The call in progress passed the check of its length. -/
def PcFits : AppendPc → Prop
  | .idle => True
  | .gap call => payloadLen call.parts ≤ maxPayload
  | .record call => payloadLen call.parts ≤ maxPayload

/-- Nothing else gets into the ring. -/
structure Whole (j : JournalProducer) : Prop where
  written : AllFit j.run.written
  fits : PcFits j.pc

variable {j : JournalProducer} {call : AppendCall}

theorem dropRecord_whole (h : AllFit j.run.written) : (j.dropRecord call).Whole := ⟨h, trivial⟩

/-- Beginning a write puts nothing into the ring. -/
theorem write_whole {write : WriteCall} {pc : AppendPc}
    {next : JournalProducer → WriteOutcome → JournalProducer} (h : AllFit j.run.written)
    (hpc : PcFits pc)
    (hfailed : ∀ (j' : JournalProducer) (err : WriteError), AllFit j'.run.written →
      (next j' (.failed err)).Whole) : (j.write write pc next).Whole := by
  rw [JournalProducer.write]
  rcases RingRun.beginWrite_call j.run.ring write with ⟨hnone, -⟩ | ⟨err, hres⟩
  · simp only [hnone]
    refine ⟨?_, hpc⟩
    show AllFit (j.run.written ++ recordsWritten (j.run.ring.beginWrite write).2)
    rw [hnone, recordsWritten_none, List.append_nil]
    exact h
  · rw [hres]
    refine hfailed _ err ?_
    show AllFit (j.run.written ++ [])
    rw [List.append_nil]
    exact h

theorem writeRecord_whole (h : AllFit j.run.written) (hfits : payloadLen call.parts ≤ maxPayload) :
    (j.writeRecord call).Whole :=
  write_whole h hfits (fun _ _ hwritten => dropRecord_whole hwritten)

theorem append_whole (h : AllFit j.run.written) : (j.append call).Whole := by
  rw [append]
  by_cases hfit : (!j.canFit call) = true
  · rw [if_pos hfit]
    exact dropRecord_whole h
  · have hcan : j.canFit call = true := by simpa using hfit
    have hfits : payloadLen call.parts ≤ maxPayload := (of_decide_eq_true hcan).2.1
    rw [if_neg hfit]
    by_cases hgap : j.pendingGap > 0
    · rw [if_pos hgap]
      exact write_whole h hfits (fun _ _ hwritten => dropRecord_whole hwritten)
    · rw [if_neg hgap]
      exact writeRecord_whole h hfits

/-- What a finished `write_with` put into the ring is the record of its call. -/
theorem stepProducer_whole (hinv : j.Inv) (h : j.Whole) : j.stepProducer.Whole := by
  have hok := hinv.pc
  have hfits := h.fits
  have hsame : recordsWritten j.run.ring.stepProducer.2 = [] →
      AllFit (j.run.afterWrite j.run.ring.stepProducer).written := by
    intro hnone
    rw [RingRun.afterWrite, hnone, List.append_nil]
    exact h.written
  rw [stepProducer]
  rcases RingRun.stepProducer_call hinv.counts.ring with
    ⟨hnone, -⟩ | ⟨-, ⟨err, hres⟩ | ⟨write, record, hwrite, hfills, hres⟩⟩
  · have hwritten := hsame (by rw [hnone]; rfl)
    simp only [hnone]
    exact ⟨hwritten, hfits⟩
  · have hwritten := hsame (by rw [hres]; rfl)
    simp only [hres]
    cases hpc : j.pc with
    | idle => exact ⟨hwritten, trivial⟩
    | gap call => exact dropRecord_whole hwritten
    | record call => exact dropRecord_whole hwritten
  · have hwritten : (j.run.afterWrite j.run.ring.stepProducer).written = j.run.written ++ [record] := by
      rw [RingRun.afterWrite, hres, recordsWritten_written]
    simp only [hres]
    cases hpc : j.pc with
    | idle =>
        rw [hpc] at hok
        rw [show j.run.ring.producer.pc = .idle from hok] at hwrite
        cases hwrite
    | gap call =>
        rw [hpc] at hok hfits
        rw [hok.2] at hwrite
        cases hwrite
        rw [recordWrite_fills hfills] at hwritten
        refine writeRecord_whole ?_ hfits
        rw [hwritten]
        exact h.written.snoc _ (payloadLen_gap _)
    | record call =>
        rw [hpc] at hok hfits
        rw [hok.2.2] at hwrite
        cases hwrite
        rw [recordWrite_fills hfills] at hwritten
        refine ⟨?_, trivial⟩
        show AllFit (j.run.afterWrite j.run.ring.stepProducer).written
        rw [hwritten]
        exact h.written.snoc _ hfits

theorem step_whole (hinv : j.Inv) (h : j.Whole) (action : JournalAction) : (j.step action).Whole := by
  cases action with
  | append call =>
      cases hpc : j.pc with
      | idle =>
          simp only [step, hpc]
          exact append_whole h.written
      | gap other => simpa only [step, hpc] using h
      | record other => simpa only [step, hpc] using h
  | producer => exact stepProducer_whole hinv h
  | read =>
      refine ⟨?_, h.fits⟩
      show AllFit (j.run.step .read).written
      rw [(RingRun.read_frame _).2]
      exact h.written
  | consumer =>
      refine ⟨?_, h.fits⟩
      show AllFit (j.run.step .consumer).written
      rw [(RingRun.consumer_frame _).2]
      exact h.written

/-- A producer that is not in a call does nothing. -/
theorem stepProducer_idle (hidle : j.run.ring.producer.pc = .idle) : j.stepProducer = j := by
  simp [stepProducer, BytesRing.stepProducer, hidle, RingRun.afterWrite]

end JournalProducer

theorem consumer_returned {run : RingRun} (hbusy : run.ring.consumer.pc ≠ .idle) :
    (run.step .consumer).returned =
      run.returned ++ recordsReturned run.ring.stepConsumer.2 := by
  cases hpc : run.ring.consumer.pc with
  | idle => exact absurd hpc hbusy
  | _ =>
      simp only [RingRun.step, hpc]
      rfl

/-- The producer takes nothing out of the ring. -/
theorem write_returned {j : JournalProducer} {write : WriteCall} {pc : AppendPc}
    {next : JournalProducer → WriteOutcome → JournalProducer}
    (hnext : ∀ j' out, (next j' out).run.returned = j'.run.returned) :
    (j.write write pc next).run.returned = j.run.returned := by
  rw [JournalProducer.write]
  cases hres : (j.run.ring.beginWrite write).2 with
  | none =>
      simp only
      rfl
  | some out =>
      simp only
      rw [hnext]
      rfl

theorem endRecord_returned (j : JournalProducer) (call : AppendCall) (out : WriteOutcome) :
    (j.endRecord call out).run.returned = j.run.returned := by
  cases out <;> rfl

theorem writeRecord_returned (j : JournalProducer) (call : AppendCall) :
    (j.writeRecord call).run.returned = j.run.returned :=
  write_returned (fun j out => endRecord_returned j call out)

theorem endGap_returned (j : JournalProducer) (call : AppendCall) (out : WriteOutcome) :
    (j.endGap call out).run.returned = j.run.returned := by
  cases out with
  | written record => exact writeRecord_returned _ call
  | failed err => rfl

theorem append_returned (j : JournalProducer) (call : AppendCall) :
    (j.step (.append call)).run.returned = j.run.returned := by
  cases hpc : j.pc with
  | idle =>
      simp only [JournalProducer.step, hpc]
      rw [JournalProducer.append]
      split_ifs with hfit hgap
      · rfl
      · exact write_returned (fun j out => endGap_returned j call out)
      · exact writeRecord_returned j call
  | gap other => simp only [JournalProducer.step, hpc]
  | record other => simp only [JournalProducer.step, hpc]

theorem stepProducer_returned (j : JournalProducer) :
    (j.step .producer).run.returned = j.run.returned := by
  show j.stepProducer.run.returned = j.run.returned
  rw [JournalProducer.stepProducer]
  cases hres : j.run.ring.stepProducer.2 with
  | none => rfl
  | some out =>
      cases hpc : j.pc with
      | idle => rfl
      | gap call => exact endGap_returned _ call out
      | record call => exact endRecord_returned _ call out

theorem read_returned (run : RingRun) : (run.step .read).returned = run.returned := by
  cases hpc : run.ring.consumer.pc <;> simp only [RingRun.step, hpc]

/-! ## §2 Drops -/

namespace FileSink

variable {s : FileSink}

theorem guard_dropped {action : FileSink → Bool × FileSink} (h : s.Flushed (action s)) (op : Bytes) :
    (s.guard op action).shared.dropped = s.shared.dropped := by
  obtain ⟨-, out, faults, -, hsink⟩ := h
  rw [guard]
  split_ifs with hfailed
  · rfl
  · generalize action s = res at hsink ⊢
    obtain ⟨ok, s'⟩ := res
    simp only at hsink
    subst hsink
    cases ok <;> rfl

theorem guardFlush_dropped : s.guardFlush.shared.dropped = s.shared.dropped :=
  guard_dropped (flushOut_flushed s) _

theorem guardSync_dropped : s.guardSync.shared.dropped = s.shared.dropped :=
  guard_dropped (sync_flushed s) _

theorem dropOut_dropped : s.dropOut.shared.dropped = s.shared.dropped := by
  obtain ⟨-, out, faults, -, hsink⟩ := flushOut_flushed s
  rw [dropOut, hsink]

theorem close_dropped : s.close.shared.dropped = s.shared.dropped :=
  dropOut_dropped.trans guardSync_dropped

theorem rotate_dropped (now : UInt64) : (s.rotate now).shared.dropped = s.shared.dropped := by
  have hsync := guardSync_dropped (s := s)
  rw [rotate]
  generalize s.guardSync = s' at hsync ⊢
  simp only
  split_ifs with hfailed
  · exact hsync
  · split
    · rename_i faults _
      exact (dropOut_dropped (s := { s' with faults })).trans hsync
    · exact hsync

theorem put_dropped (crc : Bytes → UInt32) (record : Bytes) :
    (s.put crc record).shared.dropped = s.shared.dropped := by
  rw [put]
  split <;> rfl

/-- The sink never touches the count. -/
theorem write_dropped (crc : Bytes → UInt32) (record : Bytes) (now : UInt64) :
    (s.write crc record now).shared.dropped = s.shared.dropped := by
  rw [write]
  split_ifs with hfailed hfull
  · rfl
  · simp only
    split_ifs
    · exact rotate_dropped now
    · exact (put_dropped crc record).trans (rotate_dropped now)
  · exact put_dropped crc record

theorem result_ok {stats : FinalStats} (h : s.result = .ok stats) :
    s.error = none ∧ stats.dropped = s.shared.dropped := by
  cases herror : s.error with
  | some error =>
      rw [result, herror] at h
      cases h
  | none =>
      rw [result, herror] at h
      cases h
      exact ⟨rfl, rfl⟩

end FileSink

/-! ## §3 Invariant -/

namespace JournalSystem

open FileSink (recordsOn flushOut_flushed sync_flushed)

section Invariant

variable (crc : Bytes → UInt32) (dir : List JournalFile)

/-- What the sink holds, wherever the writer thread is; a result without an error means
that nothing is left in the buffer. -/
def SinkAt (taken : List FittingRecord) (s : FileSink) : WriterPc → Prop
  | .done result => ∃ images last, s.Holds crc dir taken images last ∧
      (s.shared.failed = true ↔ 0 < s.faults.failures) ∧
        ∀ stats, result = .ok stats → s.error = none ∧ s.segment.out.buf = []
  | _ => ∃ images last, s.Inv crc dir taken images last

/-- The writer thread stops only if it was told to. -/
def Stopping (stop : Bool) : WriterPc → Prop
  | .top => True
  | .draining stopping _ => stopping = true → stop = true
  | .done _ => stop = true

/-- Both sides keep their accounts, and the sink has taken what left the ring. -/
structure Inv (sys : JournalSystem) : Prop where
  producer : sys.producer.Inv
  whole : sys.producer.Whole
  sink : ∃ taken : List FittingRecord,
    taken.map FittingRecord.ringBytes = sys.producer.run.returned ∧ SinkAt crc dir taken sys.sink sys.pc
  drops : sys.sink.shared.dropped = sys.producer.dropped
  stopping : Stopping sys.stop sys.pc

end Invariant

variable {crc : Bytes → UInt32} {dir : List JournalFile} {taken : List FittingRecord}
  {s : FileSink} {sys : JournalSystem}

/-- The count of drops is the other side's. -/
theorem SinkAt.shareDrops {pc : WriterPc} (h : SinkAt crc dir taken s pc) (dropped : Nat) :
    SinkAt crc dir taken { s with shared := { s.shared with dropped } } pc := by
  have hholds : ∀ {images last}, s.Holds crc dir taken images last →
      FileSink.Holds crc dir taken { s with shared := { s.shared with dropped } } images last :=
    fun h => ⟨h.others, h.closed, h.name, h.index, h.count, h.clean, h.records, h.stream, h.whole⟩
  cases pc with
  | done result =>
      obtain ⟨images, last, hold, hfailed, hok⟩ := h
      exact ⟨images, last, hholds hold, hfailed, hok⟩
  | top =>
      obtain ⟨images, last, hinv⟩ := h
      exact ⟨images, last, hholds hinv.holds, hinv.flagged.error, hinv.flagged.failures⟩
  | draining stopping wroteAny =>
      obtain ⟨images, last, hinv⟩ := h
      exact ⟨images, last, hholds hinv.holds, hinv.flagged.error, hinv.flagged.failures⟩

/-- The records on disk are the first of those taken, and the flag tells of failures. -/
theorem SinkAt.records {pc : WriterPc} (h : SinkAt crc dir taken s pc) :
    recordsOn crc s.disk <+: taken.map FittingRecord.toRecord ∧
      (s.shared.failed = true ↔ 0 < s.faults.failures) := by
  cases pc with
  | done result =>
      obtain ⟨images, last, hold, hfailed, -⟩ := h
      exact ⟨hold.recordsOn_disk, hfailed⟩
  | top =>
      obtain ⟨images, last, hinv⟩ := h
      exact ⟨hinv.holds.recordsOn_disk, hinv.flagged.failed_iff⟩
  | draining stopping wroteAny =>
      obtain ⟨images, last, hinv⟩ := h
      exact ⟨hinv.holds.recordsOn_disk, hinv.flagged.failed_iff⟩

/-- A result without an error means that they are all there. -/
theorem SinkAt.all_records {stats : FinalStats} (h : SinkAt crc dir taken s (.done (.ok stats))) :
    recordsOn crc s.disk = taken.map FittingRecord.toRecord := by
  obtain ⟨images, last, hold, -, hok⟩ := h
  obtain ⟨hnone, hbuf⟩ := hok stats rfl
  exact hold.recordsOn_whole hnone hbuf

/-- The timers, and the end of the run. -/
theorem endDrain_sink (sys : JournalSystem) {images : List SegmentImage} {last : SegmentImage}
    (h : sys.sink.Inv crc dir taken images last) (moment : WriterMoment) (stopping wroteAny : Bool) :
    SinkAt crc dir taken (sys.endDrain moment stopping wroteAny).sink
      (sys.endDrain moment stopping wroteAny).pc := by
  have hflush : (if moment.flushDue then sys.sink.guardFlush else sys.sink).Inv crc dir taken images last := by
    split_ifs
    · exact h.guard (flushOut_flushed _) _
    · exact h
  unfold endDrain
  generalize (if moment.flushDue then sys.sink.guardFlush else sys.sink) = s at hflush ⊢
  have hsync : (if moment.syncDue then s.guardSync else s).Inv crc dir taken images last := by
    split_ifs
    · exact hflush.guard (sync_flushed _) _
    · exact hflush
  simp only
  generalize (if moment.syncDue then s.guardSync else s) = s at hsync ⊢
  split_ifs with hend
  · obtain ⟨hholds, hfailed, hbuf⟩ := hsync.close
    refine ⟨images, last, hholds, hfailed, fun stats hstats => ?_⟩
    have hnone := (FileSink.result_ok hstats).1
    exact ⟨hnone, hbuf hnone⟩
  · exact ⟨images, last, hsync⟩

/-- Neither timers nor the end touch the count, and a result has it. -/
theorem endDrain_dropped (sys : JournalSystem) (moment : WriterMoment) (stopping wroteAny : Bool) :
    (sys.endDrain moment stopping wroteAny).sink.shared.dropped = sys.sink.shared.dropped ∧
      ∀ stats, (sys.endDrain moment stopping wroteAny).pc = .done (.ok stats) →
        stats.dropped = sys.sink.shared.dropped := by
  have hflush : (if moment.flushDue then sys.sink.guardFlush else sys.sink).shared.dropped =
      sys.sink.shared.dropped := by
    split_ifs
    · exact FileSink.guardFlush_dropped
    · rfl
  unfold endDrain
  generalize (if moment.flushDue then sys.sink.guardFlush else sys.sink) = s at hflush ⊢
  have hsync : (if moment.syncDue then s.guardSync else s).shared.dropped =
      sys.sink.shared.dropped := by
    split_ifs
    · exact FileSink.guardSync_dropped.trans hflush
    · exact hflush
  simp only
  generalize (if moment.syncDue then s.guardSync else s) = s at hsync ⊢
  split_ifs with hend
  · refine ⟨FileSink.close_dropped.trans hsync, fun stats hpc => ?_⟩
    have hresult : s.close.result = .ok stats := by
      simpa using hpc
    exact (FileSink.result_ok hresult).2.trans (FileSink.close_dropped.trans hsync)
  · refine ⟨hsync, fun stats hpc => ?_⟩
    cases hpc

theorem endDrain_stopping (sys : JournalSystem) (moment : WriterMoment) {stopping wroteAny : Bool}
    (h : stopping = true → sys.stop = true) :
    Stopping (sys.endDrain moment stopping wroteAny).stop
      (sys.endDrain moment stopping wroteAny).pc := by
  unfold endDrain
  by_cases hend : (stopping && !wroteAny) = true
  · simp only [if_pos hend]
    rw [Bool.and_eq_true] at hend
    exact h hend.1
  · simp only [if_neg hend]
    trivial

theorem endDrain_producer (sys : JournalSystem) (moment : WriterMoment) (stopping wroteAny : Bool) :
    (sys.endDrain moment stopping wroteAny).producer = sys.producer := by
  unfold endDrain
  by_cases hend : (stopping && !wroteAny) = true
  · simp only [if_pos hend]
  · simp only [if_neg hend]

theorem endDrain_stop (sys : JournalSystem) (moment : WriterMoment) (stopping wroteAny : Bool) :
    (sys.endDrain moment stopping wroteAny).stop = sys.stop := by
  unfold endDrain
  by_cases hend : (stopping && !wroteAny) = true
  · simp only [if_pos hend]
  · simp only [if_neg hend]

/-- The writer thread does not touch the flag. -/
theorem stepWriter_stop (moment : WriterMoment) : (sys.stepWriter crc moment).stop = sys.stop := by
  unfold stepWriter
  cases sys.pc with
  | top => rfl
  | draining stopping wroteAny =>
      have hdrain : (sys.drain crc moment stopping wroteAny).stop = sys.stop := by
        unfold drain
        cases hres : sys.producer.run.ring.stepConsumer.2 with
        | none => rfl
        | some got =>
            cases got with
            | none => exact endDrain_stop _ moment stopping wroteAny
            | some bytes => rfl
      cases sys.producer.run.ring.consumer.pc with
      | idle => rfl
      | _ =>
          simp only
          exact hdrain
  | done result => rfl

/-! ## §4 Steps -/

/-- A step of the producer. -/
theorem Inv.byProducer (h : sys.Inv crc dir) (action : JournalAction)
    (hinv : (sys.producer.step action).Inv)
    (hreturned : (sys.producer.step action).run.returned = sys.producer.run.returned) :
    (shareDrops { sys with producer := sys.producer.step action }).Inv crc dir := by
  obtain ⟨taken, htaken, hsink⟩ := h.sink
  exact ⟨hinv, JournalProducer.step_whole h.producer h.whole action, ⟨taken, htaken.trans hreturned.symm, hsink.shareDrops _⟩,
    rfl, h.stopping⟩

/-- The accesses of `read_with` change nothing that `append` looks at but the ring. -/
theorem Inv.reads (h : sys.Inv crc dir) :
    (sys.producer.step .read).Inv ∧ (sys.producer.step .consumer).Inv := by
  refine ⟨JournalProducer.step_inv h.producer .read ?_, JournalProducer.step_inv h.producer .consumer ?_⟩
  · intro call hcall
    cases hcall
  · intro call hcall
    cases hcall

/-- An access of `read_with`: nothing is taken, or the next record is and goes to the sink. -/
theorem Inv.drain (h : sys.Inv crc dir) {stopping wroteAny : Bool}
    (hpc : sys.pc = .draining stopping wroteAny)
    (hbusy : sys.producer.run.ring.consumer.pc ≠ .idle) (moment : WriterMoment) :
    (sys.drain crc moment stopping wroteAny).Inv crc dir := by
  obtain ⟨taken, htaken, hsink⟩ := h.sink
  have hproducer := h.reads.2
  have hwhole := JournalProducer.step_whole h.producer h.whole .consumer
  have hreturned : (sys.producer.step .consumer).run.returned =
      sys.producer.run.returned ++ recordsReturned sys.producer.run.ring.stepConsumer.2 :=
    consumer_returned hbusy
  have hstop := h.stopping
  rw [hpc] at hsink hstop
  obtain ⟨images, last, hinv⟩ := hsink
  unfold JournalSystem.drain
  cases hres : sys.producer.run.ring.stepConsumer.2 with
  | none =>
      rw [hres, recordsReturned_none, List.append_nil] at hreturned
      refine ⟨hproducer, hwhole, ⟨taken, htaken.trans hreturned.symm, ?_⟩, h.drops, ?_⟩
      · show SinkAt crc dir taken sys.sink sys.pc
        rw [hpc]
        exact ⟨images, last, hinv⟩
      · exact h.stopping
  | some got =>
      cases got with
      | none =>
          rw [hres, recordsReturned_empty, List.append_nil] at hreturned
          simp only
          have hends := endDrain_dropped { sys with producer := sys.producer.step .consumer } moment
            stopping wroteAny
          have hproducer' := endDrain_producer { sys with producer := sys.producer.step .consumer } moment
            stopping wroteAny
          refine ⟨?_, ?_, ⟨taken, ?_, ?_⟩, ?_, endDrain_stopping _ moment hstop⟩
          · rw [hproducer']
            exact hproducer
          · rw [hproducer']
            exact hwhole
          · rw [hproducer']
            exact htaken.trans hreturned.symm
          · exact endDrain_sink { sys with producer := sys.producer.step .consumer } hinv moment stopping wroteAny
          · rw [hproducer', hends.1]
            exact h.drops
      | some bytes =>
          rw [hres, recordsReturned_some] at hreturned
          -- The ring gives back what went in, and that is a record.
          have hmem : bytes ∈ (sys.producer.step .consumer).run.written := by
            refine hproducer.counts.ring.isFifo.inOrder.subset ?_
            rw [hreturned]
            exact List.mem_append_right _ (List.mem_singleton_self _)
          have hfits : ∃ record : FittingRecord, bytes = record.ringBytes := hwhole.written bytes hmem
          obtain ⟨record, hrecord⟩ := hfits
          rw [hrecord] at hreturned
          have hwrite : SinkAt crc dir (taken ++ [record]) (sys.sink.write crc record.ringBytes moment.now)
              (.draining stopping true) := hinv.write record moment.now
          have hdrops : (sys.sink.write crc record.ringBytes moment.now).shared.dropped =
              sys.producer.dropped := (FileSink.write_dropped crc _ _).trans h.drops
          have htaken' : (taken ++ [record]).map FittingRecord.ringBytes =
              (sys.producer.step .consumer).run.returned := by
            rw [List.map_append, htaken]
            exact hreturned.symm
          simp only [hrecord]
          exact ⟨hproducer, hwhole, ⟨taken ++ [record], htaken', hwrite⟩, hdrops, hstop⟩

theorem Inv.stepWriter (h : sys.Inv crc dir) (moment : WriterMoment) :
    (sys.stepWriter crc moment).Inv crc dir := by
  unfold JournalSystem.stepWriter
  cases hpc : sys.pc with
  | top =>
      have hsink := h.sink
      rw [hpc] at hsink
      exact ⟨h.producer, h.whole, hsink, h.drops, id⟩
  | draining stopping wroteAny =>
      by_cases hidle : sys.producer.run.ring.consumer.pc = .idle
      · obtain ⟨taken, htaken, hsink⟩ := h.sink
        simp only [hidle]
        exact ⟨h.reads.1, JournalProducer.step_whole h.producer h.whole .read,
          ⟨taken, htaken.trans (read_returned _).symm, hpc ▸ hsink⟩, h.drops, hpc ▸ h.stopping⟩
      · have hdrain := h.drain hpc hidle moment
        cases hconsumer : sys.producer.run.ring.consumer.pc with
        | idle => exact absurd hconsumer hidle
        | _ =>
            simp only
            exact hdrain
  | done result =>
      simp only
      exact h

/-- One event keeps the invariant. -/
theorem Inv.step (h : sys.Inv crc dir) (event : JournalEvent)
    (hkind : ∀ call, event = .append call → call.header.kind ≠ Kind.gap) :
    (sys.step crc event).Inv crc dir := by
  cases event with
  | append call =>
      refine h.byProducer (.append call) (JournalProducer.step_inv h.producer _ ?_) (append_returned _ _)
      intro other hother
      cases hother
      exact hkind call rfl
  | producer =>
      refine h.byProducer .producer (JournalProducer.step_inv h.producer _ ?_) (stepProducer_returned _)
      intro other hother
      cases hother
  | finish =>
      refine ⟨h.producer, h.whole, h.sink, h.drops, ?_⟩
      have hstop := h.stopping
      show Stopping true sys.pc
      cases hpc : sys.pc with
      | top => trivial
      | draining stopping wroteAny => exact fun _ => rfl
      | done result => rfl
  | writer moment => exact h.stepWriter moment

theorem Inv.steps : ∀ {events : List JournalEvent} {sys : JournalSystem}, sys.Inv crc dir →
    (∀ call, .append call ∈ events → call.header.kind ≠ Kind.gap) →
      (sys.steps crc events).Inv crc dir := by
  intro events
  induction events with
  | nil => exact fun h _ => h
  | cons event rest ih =>
      intro sys h hkind
      refine ih (h.step event ?_) (fun call hmem => hkind call (List.mem_cons_of_mem _ hmem))
      rintro call rfl
      exact hkind call List.mem_cons_self

theorem start_inv {capacity segmentBytes : Nat} {created : UInt64} {plan : List (Option Nat)}
    {r : BytesRing} {sink : FileSink} (hr : BytesRing.channel capacity = .ok r)
    (hstart : FileSink.start dir segmentBytes created plan = .ok sink) :
    (start r sink).Inv crc dir := by
  have hdrops : sink.shared.dropped = 0 := by
    obtain ⟨⟨faults, -, rfl⟩, -⟩ := FileSink.start_spec hstart
    rfl
  refine ⟨JournalProducer.start_inv hr, ⟨?_, trivial⟩, ⟨[], rfl, ?_⟩, hdrops, trivial⟩
  · intro bytes hmem
    cases hmem
  · exact ⟨[], ⟨created, [], []⟩, FileSink.start_inv crc hstart⟩

/-! ## §5 Journal -/

theorem flatMap_expandRecord (taken : List FittingRecord) :
    (taken.map FittingRecord.toRecord).flatMap expandRecord =
      (taken.map FittingRecord.ringBytes).flatMap expand := by
  rw [List.flatMap_map, List.flatMap_map]
  rfl

/-- What left the ring is a front of what `append` returned. -/
theorem Inv.returned_outcomes (h : sys.Inv crc dir) (hlost : sys.producer.lost < u64Modulus) :
    sys.producer.run.returned.flatMap expand <+: sys.producer.appended.map outcome := by
  have haccounted := h.producer.counts.accounted hlost
  rw [JournalProducer.Accounted] at haccounted
  rw [← haccounted]
  exact (h.producer.counts.ring.isFifo.inOrder.flatMap expand).trans (List.prefix_append ..)

theorem Inv.disk_outcomes (h : sys.Inv crc dir) (hlost : sys.producer.lost < u64Modulus) :
    (recordsOn crc sys.sink.disk).flatMap expandRecord <+: sys.producer.appended.map outcome := by
  obtain ⟨taken, htaken, hsink⟩ := h.sink
  refine (hsink.records.1.flatMap expandRecord).trans ?_
  rw [flatMap_expandRecord, htaken]
  exact h.returned_outcomes hlost

/-- The count of drops, as long as it does not wrap. -/
theorem Inv.dropped_eq (h : sys.Inv crc dir) (hlost : sys.producer.lost < u64Modulus) :
    sys.producer.dropped = sys.producer.lost := by
  rw [h.producer.counts.dropped, Nat.mod_eq_of_lt hlost]

/-- No call lost its record. -/
theorem count_outcome_eq_zero (appended : List (AppendCall × Bool)) :
    (appended.map outcome).count none = 0 ↔ ∀ call ∈ appended, call.2 = true := by
  rw [List.count_eq_zero]
  constructor
  · intro hnone call hmem
    by_contra hlost
    refine hnone (List.mem_map.mpr ⟨call, hmem, ?_⟩)
    rw [outcome, if_neg hlost]
  · intro hall hmem
    obtain ⟨call, hcall, hnone⟩ := List.mem_map.mp hmem
    rw [outcome, if_pos (hall call hcall)] at hnone
    cases hnone

theorem health_eq_ok (shared : Shared) :
    shared.health = .ok ↔ shared.failed = false ∧ shared.dropped = 0 := by
  unfold Shared.health
  split_ifs with hfailed
  · simp [hfailed]
  · split
    · simp_all
    · simp_all

theorem Inv.healthy_iff (h : sys.Inv crc dir) (hlost : sys.producer.lost < u64Modulus) :
    sys.sink.shared.health = .ok ↔
      (∀ call ∈ sys.producer.appended, call.2 = true) ∧ sys.sink.faults.failures = 0 := by
  obtain ⟨taken, -, hsink⟩ := h.sink
  have hfailed : sys.sink.shared.failed = false ↔ sys.sink.faults.failures = 0 := by
    have hflag := hsink.records.2
    rw [← Bool.not_eq_true, hflag]
    omega
  rw [health_eq_ok, hfailed, h.drops, h.dropped_eq hlost, JournalProducer.lost, count_outcome_eq_zero]
  exact and_comm

/-- The writer thread has ended only if it was told to. -/
theorem Inv.stop_of_done (h : sys.Inv crc dir) {result : Except IoError FinalStats}
    (hdone : sys.pc = .done result) : sys.stop = true := by
  have hstop := h.stopping
  rw [hdone] at hstop
  exact hstop

end JournalSystem

open FileSink (recordsOn sampleSink sampleSink_start)

/-- **The journal holds what `append` returned.** However the hot path and the writer thread
interleave and whichever operations on files fail: what is complete on disk, gap records
expanded, is the first of what the calls of `append` returned, and the health is good
exactly as long as no call lost its record and no operation failed. -/
theorem journal_holds_what_was_appended (crc : Bytes → UInt32) {dir : List JournalFile}
    {capacity segmentBytes : Nat} {created : UInt64} {plan : List (Option Nat)} {r : BytesRing}
    {sink : FileSink} (hr : BytesRing.channel capacity = .ok r)
    (hstart : FileSink.start dir segmentBytes created plan = .ok sink) (events : List JournalEvent)
    (hkind : ∀ call, .append call ∈ events → call.header.kind ≠ Kind.gap) :
    let sys := (JournalSystem.start r sink).steps crc events
    let outcomes := sys.producer.appended.map outcome
    outcomes.count none < 2 ^ 64 →
      (recordsOn crc sys.sink.disk).flatMap expandRecord <+: outcomes ∧
        (sys.sink.shared.health = .ok ↔
          (∀ call ∈ sys.producer.appended, call.2 = true) ∧ sys.sink.faults.failures = 0) := by
  intro sys outcomes hlost
  have hinv : sys.Inv crc dir := (JournalSystem.start_inv hr hstart).steps hkind
  have hmod : sys.producer.lost < u64Modulus := by
    rw [u64Modulus]
    exact hlost
  exact ⟨hinv.disk_outcomes hmod, hinv.healthy_iff hmod⟩

theorem channel_128 : BytesRing.channel 128 = .ok (.empty 128) := rfl

/-- A call of `append`, run to its end. -/
def appendEvents : List JournalEvent := .append sampleCall :: List.replicate 10 .producer

def writerEvents (n : Nat) : List JournalEvent := List.replicate n (.writer ⟨6, true, false⟩)

/-- A ring of 128 bytes takes two such records and drops the third. Behind what the writer
thread takes meanwhile there is room for a gap record and the fourth. -/
def pressedEvents : List JournalEvent :=
  appendEvents ++ appendEvents ++ appendEvents ++ writerEvents 12 ++ appendEvents

theorem pressedEvents_kind (call : AppendCall) (h : .append call ∈ pressedEvents) :
    call.header.kind ≠ Kind.gap := by
  have hcall : call = sampleCall := by
    simpa [pressedEvents, appendEvents, writerEvents] using h
  rw [hcall]
  decide

/-- The first flush fails. -/
theorem sample_journal_holds_what_was_appended :
    let sys := (JournalSystem.start (.empty 128) sampleSink).steps crc32 pressedEvents
    sys.producer.appended.map Prod.snd = [true, true, false, true] ∧
      (recordsOn crc32 sys.sink.disk).flatMap expandRecord <+: sys.producer.appended.map outcome ∧
        sys.sink.shared.health ≠ .ok := by
  have hrun : ((JournalSystem.start (.empty 128) sampleSink).steps crc32
        pressedEvents).producer.appended.map Prod.snd = [true, true, false, true] ∧
      ((((JournalSystem.start (.empty 128) sampleSink).steps crc32
        pressedEvents).producer.appended).map outcome).count none = 1 := by
    decide +kernel
  obtain ⟨hdisk, hhealth⟩ := journal_holds_what_was_appended crc32 channel_128 sampleSink_start
    pressedEvents pressedEvents_kind (lt_of_eq_of_lt hrun.2 (by norm_num))
  refine ⟨hrun.1, hdisk, fun hok => ?_⟩
  have hreturned := (hhealth.mp hok).1
  rw [← JournalSystem.count_outcome_eq_zero, hrun.2] at hreturned
  cases hreturned

end Bowst.Journal
