/-
Bowst.Journal.ProducerTheorems — dropped records are accounted for.

At every moment the records in the ring, gap records expanded, and the pending
gap spell out what the calls of `append` returned. A step of the ring that ends
a `write_with` adds exactly what that call fills in
(`RingRun.stepProducer_call`), so each case of the producer's own steps only has
to move lost records between the pending gap and a gap record.
-/
import Bowst.Core.BytesRingTheorems
import Bowst.Journal.Producer

namespace Bowst.Journal

open Bowst.Lib
open Bowst.Core

/-! ## What a write puts into the ring -/

theorem copyParts_eq : ∀ (parts : List Bytes) {body : Bytes}, body.length = payloadLen parts →
    copyParts parts body = parts.flatten := by
  intro parts
  induction parts with
  | nil => intro body h; exact List.length_eq_zero_iff.mp h
  | cons part rest ih =>
      intro body h
      rw [payloadLen, List.map_cons, List.sum_cons] at h
      have hrest : (body.drop part.length).length = payloadLen rest := by
        rw [List.length_drop, payloadLen]
        omega
      rw [copyParts, if_pos (by omega), ih hrest, List.flatten_cons]

theorem recordWrite_fills {header : RecordHeader} {parts : List Bytes} {record : Bytes}
    (h : (recordWrite header parts).Fills record) : record = encodeRecord header parts := by
  obtain ⟨dst, hlen, rfl⟩ := h
  have hdst : dst.length = recordHeaderLen + payloadLen parts := hlen
  have hhead : (dst.take recordHeaderLen).length = recordHeaderLen := by
    rw [List.length_take]; omega
  have hbody : (dst.drop recordHeaderLen).length = payloadLen parts := by
    rw [List.length_drop]; omega
  show encodeRecordHeader header _ _ ++ copyParts parts _ = encodeRecord header parts
  rw [encodeRecordHeader_eq _ _ hhead, copyParts_eq _ hbody, encodeRecord]

/-- A record of another kind stands for itself. -/
theorem expand_record {header : RecordHeader} (h : header.kind ≠ Kind.gap) (parts : List Bytes) :
    expand (encodeRecord header parts) = [some (encodeRecord header parts)] := by
  have hcode : header.kind.code.toNat ≠ Kind.gap.code.toNat := by
    intro heq
    refine h ?_
    have hcode := UInt16.toNat_inj.mp heq
    cases hkind : header.kind with
    | mk code => rw [hkind] at hcode; exact congrArg Kind.mk hcode
  rw [expand, encodeRecord, uintAt_kind, if_neg hcode]

/-- A gap record stands for its count. -/
theorem expand_gap (header : RecordHeader) {count : Nat} (h : count < u64Modulus) :
    expand (encodeRecord { header with kind := Kind.gap } [toLe 8 count]) =
      List.replicate count none := by
  have hcount : count < 256 ^ 8 := by
    have hmod : u64Modulus = 256 ^ 8 := by norm_num [u64Modulus]
    rwa [← hmod]
  have hpayload : ([toLe 8 count] : List Bytes).flatten = toLe 8 count := by simp
  rw [expand, encodeRecord, uintAt_kind, if_pos rfl, hpayload, uintAt_payload _ _ _ _ hcount]

/-! ## The invariant -/

namespace JournalProducer

/-- Calls of `append` that returned `false`. -/
def lost (j : JournalProducer) : Nat := (j.appended.map outcome).count none

/-- The ring's records and the pending gap account for every call. -/
def Accounted (j : JournalProducer) : Prop :=
  j.run.written.flatMap expand ++ List.replicate j.pendingGap none = j.appended.map outcome

/-- What holds at each point of `append`: what its `write_with` call is. -/
def PcOk (producer : ProducerPc) (pendingGap : Nat) : AppendPc → Prop
  | .idle => producer = .idle
  | .gap call =>
      call.header.kind ≠ Kind.gap ∧ producer.call? = some (gapWrite call.header pendingGap)
  | .record call =>
      call.header.kind ≠ Kind.gap ∧ pendingGap = 0 ∧
        producer.call? = some (recordWrite call.header call.parts)

/-- The counters are right, whatever `append` is doing. -/
structure Counts (j : JournalProducer) : Prop where
  ring : j.run.Inv
  pending : j.pendingGap ≤ j.lost
  dropped : j.dropped = j.lost % u64Modulus
  accounted : j.lost < u64Modulus → j.Accounted

structure Inv (j : JournalProducer) : Prop where
  counts : j.Counts
  pc : PcOk j.run.ring.producer.pc j.pendingGap j.pc

variable {j : JournalProducer} {call : AppendCall}

theorem lost_dropRecord : (j.dropRecord call).lost = j.lost + 1 := by
  simp [lost, dropRecord, outcome]

/-- Dropping a record adds a lost one to the pending gap. -/
theorem dropRecord_inv (h : j.Counts) (hidle : j.run.ring.producer.pc = .idle) :
    (j.dropRecord call).Inv := by
  have hpending := h.pending
  refine ⟨⟨h.ring, ?_, ?_, ?_⟩, hidle⟩
  · rw [lost_dropRecord]
    exact le_trans (min_le_left ..) (by omega)
  · rw [lost_dropRecord]
    show (j.dropped + 1) % u64Modulus = (j.lost + 1) % u64Modulus
    rw [h.dropped, Nat.mod_add_mod]
  · intro hlost
    rw [lost_dropRecord] at hlost
    have hmin : min (j.pendingGap + 1) (u64Modulus - 1) = j.pendingGap + 1 :=
      min_eq_left (by omega)
    have haccounted := h.accounted (by omega)
    rw [Accounted] at haccounted ⊢
    show j.run.written.flatMap expand ++
      List.replicate (min (j.pendingGap + 1) (u64Modulus - 1)) none =
        (j.appended ++ [(call, false)]).map outcome
    rw [hmin, List.replicate_succ', ← List.append_assoc, haccounted, List.map_append]
    rfl

/-- A write that adds nothing to the ring changes no counter. -/
theorem afterWrite_counts (h : j.Counts) {res : BytesRing × Option WriteOutcome} {pc : AppendPc}
    (hring : (j.run.afterWrite res).Inv) (hnone : recordsWritten res.2 = []) :
    Counts { j with run := j.run.afterWrite res, pc } := by
  refine ⟨hring, h.pending, h.dropped, fun hlost => ?_⟩
  have haccounted := h.accounted hlost
  rw [Accounted] at haccounted ⊢
  show (j.run.written ++ recordsWritten res.2).flatMap expand ++ _ = _
  rw [hnone, List.append_nil]
  exact haccounted

/-- Beginning a write: it is in progress, or has failed at once. -/
theorem write_inv {write : WriteCall} {pc : AppendPc}
    {next : JournalProducer → WriteOutcome → JournalProducer} (h : j.Counts)
    (hidle : j.run.ring.producer.pc = .idle)
    (hpc : ∀ producer : ProducerPc, producer.call? = some write → PcOk producer j.pendingGap pc)
    (hfailed : ∀ (j' : JournalProducer) (err : WriteError), j'.Counts →
      j'.run.ring.producer.pc = .idle → (next j' (.failed err)).Inv) :
    (j.write write pc next).Inv := by
  have hring : (j.run.afterWrite (j.run.ring.beginWrite write)).Inv := by
    have hstep := RingRun.step_inv h.ring (.write write)
    simpa only [RingRun.step, hidle] using hstep
  rw [JournalProducer.write]
  rcases RingRun.beginWrite_call j.run.ring write with ⟨hnone, hcall⟩ | ⟨err, hres⟩
  · have hcounts : Counts { j with run := j.run.afterWrite (j.run.ring.beginWrite write), pc } :=
      afterWrite_counts h hring (by rw [hnone]; rfl)
    simp only [hnone]
    exact ⟨hcounts, hpc _ hcall⟩
  · rw [hres] at hring ⊢
    exact hfailed _ err (afterWrite_counts h hring rfl) hidle

theorem writeRecord_inv (h : j.Counts) (hidle : j.run.ring.producer.pc = .idle)
    (hkind : call.header.kind ≠ Kind.gap) (hzero : j.pendingGap = 0) :
    (j.writeRecord call).Inv :=
  write_inv h hidle (fun _ hcall => ⟨hkind, hzero, hcall⟩)
    (fun _ _ hcounts hidle => dropRecord_inv hcounts hidle)

theorem writeGap_inv (h : j.Counts) (hidle : j.run.ring.producer.pc = .idle)
    (hkind : call.header.kind ≠ Kind.gap) : (j.writeGap call).Inv :=
  write_inv h hidle (fun _ hcall => ⟨hkind, hcall⟩)
    (fun _ _ hcounts hidle => dropRecord_inv hcounts hidle)

theorem append_inv (h : j.Counts) (hidle : j.run.ring.producer.pc = .idle)
    (hkind : call.header.kind ≠ Kind.gap) : (j.append call).Inv := by
  rw [append]
  by_cases hfit : (!j.canFit call) = true
  · rw [if_pos hfit]
    exact dropRecord_inv h hidle
  · rw [if_neg hfit]
    by_cases hgap : j.pendingGap > 0
    · rw [if_pos hgap]
      exact writeGap_inv h hidle hkind
    · rw [if_neg hgap]
      exact writeRecord_inv h hidle hkind (by omega)

/-- A record that was written is accounted for by itself. -/
theorem endRecord_inv {run : RingRun} (h : j.Counts) (hring : run.Inv)
    (hidle : run.ring.producer.pc = .idle) (hkind : call.header.kind ≠ Kind.gap)
    (hzero : j.pendingGap = 0)
    (hwritten : run.written = j.run.written ++ [encodeRecord call.header call.parts])
    (record : Bytes) : (endRecord { j with run } call (.written record)).Inv := by
  have hlost : (endRecord { j with run } call (.written record)).lost = j.lost := by
    simp [lost, endRecord, outcome]
  refine ⟨⟨hring, ?_, ?_, ?_⟩, hidle⟩
  · rw [hlost]; exact h.pending
  · rw [hlost]; exact h.dropped
  · rw [hlost]
    intro hsmall
    have haccounted := h.accounted hsmall
    rw [Accounted, hzero, List.replicate_zero, List.append_nil] at haccounted
    rw [Accounted]
    show run.written.flatMap expand ++ List.replicate j.pendingGap none =
      (j.appended ++ [(call, true)]).map outcome
    rw [hwritten, hzero, List.replicate_zero, List.append_nil, List.flatMap_append, haccounted,
      List.flatMap_singleton, expand_record hkind, List.map_append]
    rfl

/-- A gap record that was written takes over the pending gap. -/
theorem endGap_counts {run : RingRun} {pc : AppendPc} (h : j.Counts) (hring : run.Inv)
    (hwritten : run.written = j.run.written ++
      [encodeRecord { call.header with kind := Kind.gap } [toLe 8 j.pendingGap]]) :
    Counts { j with run, pendingGap := 0, pc } := by
  refine ⟨hring, Nat.zero_le _, h.dropped, fun hsmall => ?_⟩
  have hlost : j.lost < u64Modulus := hsmall
  have haccounted := h.accounted hlost
  have hpending := h.pending
  rw [Accounted] at haccounted ⊢
  show run.written.flatMap expand ++ List.replicate 0 none = j.appended.map outcome
  rw [hwritten, List.replicate_zero, List.append_nil, List.flatMap_append, List.flatMap_singleton,
    expand_gap _ (by omega), haccounted]

theorem stepProducer_inv (h : j.Inv) : j.stepProducer.Inv := by
  have hring : (j.run.afterWrite j.run.ring.stepProducer).Inv :=
    RingRun.step_inv h.counts.ring .producer
  have hok := h.pc
  rw [stepProducer]
  rcases RingRun.stepProducer_call h.counts.ring with
    ⟨hnone, hcall⟩ | ⟨hidle, ⟨err, hres⟩ | ⟨write, record, hwrite, hfills, hres⟩⟩
  · -- The call is still in progress.
    have hcounts : Counts { j with run := j.run.afterWrite j.run.ring.stepProducer } :=
      afterWrite_counts h.counts hring (by rw [hnone]; rfl)
    simp only [hnone]
    refine ⟨hcounts, ?_⟩
    show PcOk j.run.ring.stepProducer.1.producer.pc j.pendingGap j.pc
    cases hpc : j.pc with
    | idle =>
        rw [hpc] at hok
        have hsame : j.run.ring.stepProducer = (j.run.ring, none) := by
          simp only [BytesRing.stepProducer, show j.run.ring.producer.pc = .idle from hok]
        rw [hsame]
        exact hok
    | gap call =>
        rw [hpc] at hok
        exact ⟨hok.1, hcall.trans hok.2⟩
    | record call =>
        rw [hpc] at hok
        exact ⟨hok.1, hok.2.1, hcall.trans hok.2.2⟩
  · -- It failed: the record is dropped, gap or no gap.
    have hcounts : ∀ pc, Counts { j with run := j.run.afterWrite j.run.ring.stepProducer, pc } :=
      fun pc => afterWrite_counts h.counts hring (by rw [hres]; rfl)
    simp only [hres]
    cases hpc : j.pc with
    | idle => exact ⟨hcounts .idle, hidle⟩
    | gap call => exact dropRecord_inv (hcounts _) hidle
    | record call => exact dropRecord_inv (hcounts _) hidle
  · -- It put into the ring what it fills in.
    have hwritten : (j.run.afterWrite j.run.ring.stepProducer).written = j.run.written ++ [record] := by
      rw [RingRun.afterWrite, hres, recordsWritten_written]
    simp only [hres]
    cases hpc : j.pc with
    | idle =>
        rw [hpc] at hok
        rw [show j.run.ring.producer.pc = .idle from hok] at hwrite
        cases hwrite
    | gap call =>
        rw [hpc] at hok
        obtain ⟨hkind, hcall⟩ := hok
        rw [hcall] at hwrite
        cases hwrite
        rw [recordWrite_fills hfills] at hwritten
        exact writeRecord_inv (endGap_counts (j := j) h.counts hring hwritten) hidle hkind rfl
    | record call =>
        rw [hpc] at hok
        obtain ⟨hkind, hzero, hcall⟩ := hok
        rw [hcall] at hwrite
        cases hwrite
        rw [recordWrite_fills hfills] at hwritten
        exact endRecord_inv h.counts hring hidle hkind hzero hwritten record

theorem step_inv (h : j.Inv) (action : JournalAction)
    (hkind : ∀ call, action = .append call → call.header.kind ≠ Kind.gap) : (j.step action).Inv := by
  -- The consumer's steps touch nothing that the producer's counters are about.
  have hconsumer : ∀ {run : RingRun}, run.Inv → run.ring.producer = j.run.ring.producer →
      run.written = j.run.written → Inv { j with run } := by
    intro run hring hproducer hwritten
    refine ⟨⟨hring, h.counts.pending, h.counts.dropped, fun hlost => ?_⟩, ?_⟩
    · have haccounted := h.counts.accounted hlost
      rw [Accounted] at haccounted ⊢
      rw [← haccounted]
      show run.written.flatMap expand ++ _ = _
      rw [hwritten]
    · show PcOk run.ring.producer.pc j.pendingGap j.pc
      rw [hproducer]
      exact h.pc
  cases action with
  | append call =>
      cases hpc : j.pc with
      | idle =>
          simp only [step, hpc]
          have hok := h.pc
          rw [hpc] at hok
          exact append_inv h.counts hok (hkind call rfl)
      | gap other => simpa only [step, hpc] using h
      | record other => simpa only [step, hpc] using h
  | producer => exact stepProducer_inv h
  | read =>
      exact hconsumer (RingRun.step_inv h.counts.ring .read) (RingRun.read_frame _).1
        (RingRun.read_frame _).2
  | consumer =>
      exact hconsumer (RingRun.step_inv h.counts.ring .consumer) (RingRun.consumer_frame _).1
        (RingRun.consumer_frame _).2

theorem start_inv {capacity : Nat} {r : BytesRing} (h : BytesRing.channel capacity = .ok r) :
    (start r).Inv := by
  have hidle : r.producer.pc = .idle := by
    rw [BytesRing.channel] at h
    split_ifs at h
    cases h
    rfl
  refine ⟨⟨RingRun.start_inv h, le_rfl, ?_, fun _ => rfl⟩, hidle⟩
  exact (Nat.zero_mod _).symm

theorem foldl_step_inv : ∀ {actions : List JournalAction} {j : JournalProducer}, j.Inv →
    (∀ call, .append call ∈ actions → call.header.kind ≠ Kind.gap) →
      (actions.foldl step j).Inv := by
  intro actions
  induction actions with
  | nil => exact fun h _ => h
  | cons action rest ih =>
      intro j h hkind
      refine ih (step_inv h action ?_) (fun call hmem => hkind call (List.mem_cons_of_mem _ hmem))
      rintro call rfl
      exact hkind call List.mem_cons_self

end JournalProducer

/-- Reading the ring's records, gap records expanded, and then the pending gap
gives the calls of `append`, whatever the writer thread has drained. -/
theorem journal_drops_accounted (capacity : Nat) (r : BytesRing)
    (hr : BytesRing.channel capacity = .ok r) (actions : List JournalAction)
    (hkind : ∀ call, .append call ∈ actions → call.header.kind ≠ Kind.gap) :
    let j := actions.foldl JournalProducer.step (JournalProducer.start r)
    let lost := (j.appended.map outcome).count none
    lost < 2 ^ 64 →
      j.run.written.flatMap expand ++ List.replicate j.pendingGap none = j.appended.map outcome ∧
        j.dropped = lost ∧ j.run.returned <+: j.run.written := by
  intro j lost hlost
  have hinv : j.Inv := JournalProducer.foldl_step_inv (JournalProducer.start_inv hr) hkind
  have hmod : j.lost < u64Modulus := by
    rw [u64Modulus]
    exact hlost
  refine ⟨hinv.counts.accounted hmod, ?_, hinv.counts.ring.isFifo.inOrder⟩
  rw [hinv.counts.dropped, Nat.mod_eq_of_lt hmod]
  rfl

/-- A message of eight bytes. -/
def sampleCall : AppendCall := ⟨⟨Kind.mdMessage, 1, 2, 3⟩, [[1, 2, 3], [4, 5, 6, 7, 8]]⟩

/-- Runs of `append` and of the writer thread's `read_with`. -/
def appendSteps : List JournalAction := .append sampleCall :: List.replicate 10 .producer

def drainSteps : List JournalAction := .read :: List.replicate 6 .consumer

/-- A ring of 128 bytes holds two such records. The third is dropped; for the
fourth there is room for the gap record only; the fifth gets through after a
second gap record. -/
def dropActions : List JournalAction :=
  appendSteps ++ appendSteps ++ appendSteps ++ drainSteps ++ appendSteps ++ drainSteps ++
    drainSteps ++ appendSteps

theorem dropActions_kind (call : AppendCall) (h : .append call ∈ dropActions) :
    call.header.kind ≠ Kind.gap := by
  have hcall : call = sampleCall := by
    simpa [dropActions, appendSteps, drainSteps] using h
  rw [hcall]
  decide

theorem journal_drops_accounted_after_drops :
    BytesRing.channel 128 = .ok (.empty 128) ∧
      let j := dropActions.foldl JournalProducer.step (JournalProducer.start (.empty 128))
      j.appended.map Prod.snd = [true, true, false, false, true] ∧
        j.run.written.flatMap expand ++ List.replicate j.pendingGap none =
          j.appended.map outcome ∧ j.dropped = 2 := by
  have hlost : ((dropActions.foldl JournalProducer.step
      (JournalProducer.start (.empty 128))).appended.map outcome).count none = 2 := by
    decide +kernel
  have h := journal_drops_accounted 128 (.empty 128) rfl dropActions dropActions_kind
    (lt_of_eq_of_lt hlost (by norm_num))
  exact ⟨rfl, by decide +kernel, h.1, h.2.1.trans hlost⟩

end Bowst.Journal
