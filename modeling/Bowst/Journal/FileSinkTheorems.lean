/-
Bowst.Journal.FileSinkTheorems — what is on disk when operations on files fail.

The open segment's stream, the file and the buffer one after the other, is the first
bytes of a segment with the records taken so far; the finished segments are whole. An
error is set by the first operation that fails, and behind it nothing is written but
what was in the buffer.

  §1 Files    — the records of a segment cut off anywhere.
  §2 Frames   — what one operation changes.
  §3 Segments — what one action keeps.
  §4 Runs     — what actions, and the end of the run, leave on disk.
  §5 Refined  — the sink of a run in which nothing fails.
-/
import Bowst.Journal.FileReaderTheorems
import Bowst.Journal.FileSink

namespace Bowst.Journal

open Bowst.Lib
open Bowst.Core (Bytes saturatingAdd u64Max)

/-! ## §1 Files -/

section Files

variable {crc : Bytes → UInt32}

/-- The records at a position, up to the end or to a part of a record. -/
theorem decodeRun_records : ∀ (records : List Record) (data front torn : Bytes) (rounds pos : Nat),
    (∀ record ∈ records, record.Fits) → (torn ≠ [] → JournalReader.Torn crc torn) →
    data = front ++ (recordBytes crc records ++ torn) → pos = front.length →
    data.length - pos ≤ rounds → (decodeRun crc data rounds pos).1 = records := by
  intro records
  induction records with
  | nil =>
      intro data front torn rounds pos _ htorn hdata hpos _
      cases torn with
      | nil => simp [decodeRun_end (show data.length ≤ pos by simp [hdata, hpos])]
      | cons byte rest =>
          have hincomplete := (htorn (by simp)).incomplete pos
          have hget : getFrom data pos = byte :: rest := by
            rw [hdata]
            exact JournalReader.getFrom_at hpos
          have hstop : ∀ header len,
              decodeRecord crc (getFrom data pos) pos ≠ .ok (.record header len) := by
            simp [hget, hincomplete]
          simp [decodeRun_stop hstop]
  | cons record rest ih =>
      intro data front torn rounds pos hfits htorn hdata hpos hrounds
      have hsize := record.size_pos
      rw [recordBytes_cons, List.append_assoc] at hdata
      obtain ⟨hdecode, hpayload⟩ := JournalReader.record_at (hfits record (by simp)) hdata hpos
      have hlen : data.length = pos + record.size + (recordBytes crc rest ++ torn).length := by
        rw [hdata, List.length_append, List.length_append, record.length_bytes, hpos, Nat.add_assoc]
      obtain ⟨rounds, rfl⟩ : ∃ n, rounds = n + 1 := ⟨rounds - 1, by omega⟩
      have hrest := ih data (front ++ record.bytes crc) torn rounds (pos + record.size)
        (fun x hx => hfits x (by simp [hx])) htorn (by simp [hdata]) (by simp [hpos]) (by omega)
      rw [decodeRun_record (by omega) hdecode, hrest, hpayload]

/-- The records of a segment's file are its complete records. -/
theorem fileRecords_data {img : SegmentImage} (hfits : ∀ record ∈ img.records, record.Fits)
    (htorn : img.torn ≠ [] → JournalReader.Torn crc img.torn) (index : Nat) :
    (fileRecords crc (some (img.data crc index))).1 = img.records := by
  have hheader : decodeFileHeader (img.data crc index) = .ok (index % 256 ^ 4) :=
    decodeFileHeader_append index img.created _
  simp only [fileRecords, hheader]
  exact decodeRun_records img.records _ (encodeFileHeader index img.created) img.torn _ _ hfits htorn rfl
    (by simp) (by omega)

/-- The first bytes of a segment's file hold the first of its records. -/
theorem fileRecords_first {img : SegmentImage} (hfits : ∀ record ∈ img.records, record.Fits)
    (htorn : img.torn = []) {index : Nat} {data : Bytes} (h : data <+: img.data crc index) :
    (fileRecords crc (some data)).1 <+: img.records := by
  have htake := List.prefix_iff_eq_take.mp h
  by_cases hshort : data.length < fileHeaderLen
  · simp [fileRecords, decodeFileHeader_short hshort]
  · have hlen : data.length ≤ img.size := by
      have hle := h.length_le
      rw [JournalReader.length_data] at hle
      simpa [SegmentImage.size, htorn] using hle
    obtain ⟨hdata, htorn', -⟩ := SegmentImage.cutAt_spec crc htorn hfits (Nat.not_lt.mp hshort) hlen
    rw [htake, ← hdata index, fileRecords_data (fun record hmem => hfits record (fitting_subset _ _ hmem)) htorn']
    exact fitting_first img.records _

end Files

/-- The health is failed where the flag is set. -/
theorem Shared.health_failed (shared : Shared) : shared.health = .failed ↔ shared.failed = true := by
  unfold Shared.health
  split_ifs with hfailed
  · simp [hfailed]
  · split <;> simp [hfailed]

namespace FileSink

/-! ## §2 Frames -/

/-- An operation that may move the stream of the open segment on, from the buffer to the
file, and changes nothing else. -/
structure Flushed (s : FileSink) (res : Bool × FileSink) : Prop where
  counts : s.faults.Counts res.1 res.2.faults
  sink : ∃ out faults, out.stream = s.segment.out.stream ∧
    res.2 = { s with segment := { s.segment with out }, faults }

theorem flushOut_flushed (s : FileSink) : s.Flushed s.flushOut := by
  have hwrote := Buffered.flushBuf_wrote s.segment.out s.faults
  obtain ⟨part, hpart, hstream, -⟩ := hwrote.part
  rw [List.prefix_nil.mp hpart, List.append_nil] at hstream
  exact ⟨hwrote.counts, _, _, hstream, rfl⟩

theorem sync_flushed (s : FileSink) : s.Flushed s.sync := by
  obtain ⟨hcounts, out, faults, hstream, hsink⟩ := flushOut_flushed s
  rw [sync]
  generalize s.flushOut = res at hcounts hsink ⊢
  obtain ⟨ok, s'⟩ := res
  simp only at hsink hcounts
  cases ok with
  | false => exact ⟨hcounts, out, faults, hstream, hsink⟩
  | true =>
      refine ⟨?_, out, s'.faults.attempt.2, hstream, by rw [hsink]⟩
      have hattempt := Faults.attempt_counts s'.faults
      simp only [Faults.Counts, if_true, Nat.add_zero] at hcounts hattempt ⊢
      rw [hattempt, hcounts]

/-- A sync that succeeds leaves nothing in the buffer. -/
theorem sync_ok {s : FileSink} (h : s.sync.1 = true) : s.sync.2.segment.out.buf = [] := by
  have hflush : s.flushOut.1 = true → s.flushOut.2.segment.out.buf = [] := Buffered.flushBuf_ok
  rw [sync] at h ⊢
  generalize s.flushOut = res at h hflush ⊢
  obtain ⟨ok, s'⟩ := res
  cases ok with
  | false => cases h
  | true => exact hflush rfl

/-- A new segment: its file holds nothing yet, since its header fits into the buffer. -/
theorem create_spec (dir : List JournalFile) (index : Nat) (created : UInt64) (faults : Faults) :
    (∃ faults', faults.Counts true faults' ∧
        OpenSegment.create dir index created faults =
          (.ok ⟨segmentName index, ⟨[], encodeFileHeader index created⟩, fileHeaderLen⟩, faults') ∧
        ∀ file ∈ dir, file.name ≠ segmentName index) ∨
      ∃ error faults', faults.Counts false faults' ∧
        OpenSegment.create dir index created faults = (.error error, faults') := by
  have hcounts := Faults.attemptIf_counts faults !(dir.any fun file => file.name = segmentName index)
  have hok : (faults.attemptIf !(dir.any fun file => file.name = segmentName index)).1 = true → _ :=
    Faults.attemptIf_ok
  rw [OpenSegment.create]
  generalize faults.attemptIf _ = res at hcounts hok ⊢
  obtain ⟨ok, faults'⟩ := res
  cases ok with
  | false => exact .inr ⟨_, faults', hcounts, rfl⟩
  | true =>
      refine .inl ⟨faults', hcounts, ?_, by simpa using hok rfl⟩
      have hwrite : Buffered.write outCapacity ⟨[], []⟩ (encodeFileHeader index created) faults' =
          (true, ⟨[], encodeFileHeader index created⟩, faults') :=
        Buffered.write_fits (by rw [length_encodeFileHeader]; decide)
      simp [hwrite]

/-- A sink that has an error and on which nothing was done but count. -/
structure Frozen (s s' : FileSink) : Prop where
  failed : s.error.isSome = true
  others : s'.others = s.others
  closed : s'.closed = s.closed
  segment : s'.segment = s.segment
  index : s'.index = s.index
  error : s'.error = s.error
  faults : s'.faults = s.faults
  flag : s'.shared.failed = s.shared.failed

theorem Frozen.refl {s : FileSink} (h : s.error.isSome = true) : s.Frozen s :=
  ⟨h, rfl, rfl, rfl, rfl, rfl, rfl, rfl⟩

theorem Frozen.trans {s s' s'' : FileSink} (h : s.Frozen s') (h' : s'.Frozen s'') : s.Frozen s'' :=
  ⟨h.failed, h'.others.trans h.others, h'.closed.trans h.closed, h'.segment.trans h.segment,
    h'.index.trans h.index, h'.error.trans h.error, h'.faults.trans h.faults, h'.flag.trans h.flag⟩

theorem guard_failed {s : FileSink} (h : s.error.isSome = true) (op : Bytes)
    (action : FileSink → Bool × FileSink) : s.guard op action = s := by
  rw [guard, if_pos h]

/-- An action after an error. -/
theorem step_frozen (crc : Bytes → UInt32) {s : FileSink} (h : s.error.isSome = true)
    (action : SinkAction) : s.Frozen (s.step crc action) := by
  cases action with
  | write record now =>
      rw [step, write, if_pos h]
      exact ⟨h, rfl, rfl, rfl, rfl, rfl, rfl, rfl⟩
  | flush =>
      rw [step, guardFlush, guard_failed h]
      exact .refl h
  | sync =>
      rw [step, guardSync, guard_failed h]
      exact .refl h
  | dropped => exact ⟨h, rfl, rfl, rfl, rfl, rfl, rfl, rfl⟩

theorem steps_frozen (crc : Bytes → UInt32) : ∀ (actions : List SinkAction) (s : FileSink),
    s.error.isSome = true → s.Frozen (s.steps crc actions) := by
  intro actions
  induction actions with
  | nil => intro s h; exact .refl h
  | cons action rest ih =>
      intro s h
      have hstep := step_frozen crc h action
      exact hstep.trans (ih (s.step crc action) (by rw [hstep.error]; exact h))

/-! ## §3 Segments -/

/-- The error and the flag are set by the first operation that fails, and there is no other. -/
structure Flagged (s : FileSink) : Prop where
  error : s.error.isSome = s.shared.failed
  failures : s.faults.failures = if s.shared.failed then 1 else 0

section Invariant

variable (crc : Bytes → UInt32) (dir : List JournalFile)

/-- What the sink holds of the records taken from the ring: `images` in the finished
segments, `last` in the open one. -/
structure Holds (taken : List FittingRecord) (s : FileSink) (images : List SegmentImage)
    (last : SegmentImage) : Prop where
  others : s.others = dir
  closed : s.closed = imageFiles crc (nextSegmentIndex dir) images
  name : s.segment.name = segmentName (nextSegmentIndex dir + images.length)
  index : s.index = nextSegmentIndex dir + images.length
  count : nextSegmentIndex dir + images.length ≤ u32Max
  clean : ∀ img ∈ images ++ [last], img.torn = []
  records : images.flatMap SegmentImage.records ++ last.records <+: taken.map FittingRecord.toRecord
  stream : s.segment.out.stream <+: last.data crc (nextSegmentIndex dir + images.length)
  whole : s.error = none →
    images.flatMap SegmentImage.records ++ last.records = taken.map FittingRecord.toRecord ∧
      s.segment.out.stream = last.data crc (nextSegmentIndex dir + images.length)

/-- The invariant of the writer. -/
structure Inv (taken : List FittingRecord) (s : FileSink) (images : List SegmentImage)
    (last : SegmentImage) : Prop where
  holds : s.Holds crc dir taken images last
  flagged : s.Flagged

end Invariant

variable {crc : Bytes → UInt32} {dir : List JournalFile} {taken : List FittingRecord} {s s' : FileSink}
  {images : List SegmentImage} {last : SegmentImage}

/-- The file of the open segment may get what the buffer held. -/
theorem Holds.flushed (h : s.Holds crc dir taken images last) {out : Buffered UInt8}
    (hstream : out.stream = s.segment.out.stream) (faults : Faults) :
    Holds crc dir taken { s with segment := { s.segment with out }, faults } images last :=
  ⟨h.others, h.closed, h.name, h.index, h.count, h.clean, h.records, by rw [hstream]; exact h.stream,
    by rw [hstream]; exact h.whole⟩

theorem fail_isSome (s : FileSink) (error : IoError) : (s.fail error).error.isSome = true := by
  simp [fail]

theorem Holds.fail (h : s.Holds crc dir taken images last) (error : IoError) :
    (s.fail error).Holds crc dir taken images last := by
  refine ⟨h.others, h.closed, h.name, h.index, h.count, h.clean, h.records, h.stream, fun hnone => ?_⟩
  have hsome := fail_isSome s error
  simp [hnone] at hsome

/-- Records that are not written. -/
theorem Holds.frozen (h : s.Holds crc dir taken images last) (hfrozen : s.Frozen s')
    (more : List FittingRecord) : s'.Holds crc dir (taken ++ more) images last := by
  refine ⟨hfrozen.others.trans h.others, hfrozen.closed.trans h.closed, by rw [hfrozen.segment]; exact h.name,
    hfrozen.index.trans h.index, h.count, h.clean, ?_, by rw [hfrozen.segment]; exact h.stream,
    fun hnone => ?_⟩
  · rw [List.map_append]
    exact h.records.trans (List.prefix_append ..)
  · have hsome := hfrozen.failed
    rw [← hfrozen.error, hnone] at hsome
    cases hsome

theorem Flagged.none_failed (h : s.Flagged) (hnone : s.error = none) :
    s.shared.failed = false ∧ s.faults.failures = 0 := by
  have hfalse : s.shared.failed = false := by simp [← h.error, hnone]
  exact ⟨hfalse, by simp [h.failures, hfalse]⟩

/-- An operation that succeeds. -/
theorem Flagged.ok (h : s.Flagged) {faults : Faults} (hcounts : s.faults.Counts true faults)
    (herror : s'.error = s.error) (hshared : s'.shared = s.shared) (hfaults : s'.faults = faults) :
    s'.Flagged := by
  refine ⟨by rw [herror, hshared]; exact h.error, ?_⟩
  rw [hfaults, hcounts, hshared]
  exact h.failures

/-- The first operation that fails. -/
theorem Flagged.fail (h : s.Flagged) (hnone : s.error = none) {faults : Faults}
    (hcounts : s.faults.Counts false faults) (hfaults : s'.faults = faults) (error : IoError) :
    (s'.fail error).Flagged := by
  refine ⟨fail_isSome s' error, ?_⟩
  have hzero := (h.none_failed hnone).2
  simp only [Faults.Counts, hzero] at hcounts
  simpa [FileSink.fail, hfaults] using hcounts

theorem Flagged.frozen (h : s.Flagged) (hfrozen : s.Frozen s') : s'.Flagged :=
  ⟨by rw [hfrozen.error, hfrozen.flag]; exact h.error,
    by rw [hfrozen.faults, hfrozen.flag]; exact h.failures⟩

theorem Inv.frozen (h : s.Inv crc dir taken images last) (hfrozen : s.Frozen s')
    (more : List FittingRecord) : s'.Inv crc dir (taken ++ more) images last :=
  ⟨h.holds.frozen hfrozen more, h.flagged.frozen hfrozen⟩

/-- A flush or a sync. -/
theorem Inv.guard (h : s.Inv crc dir taken images last) {action : FileSink → Bool × FileSink}
    (haction : s.Flushed (action s)) (op : Bytes) :
    (s.guard op action).Inv crc dir taken images last := by
  rw [FileSink.guard]
  by_cases hfailed : s.error.isSome
  · rw [if_pos hfailed]
    exact h
  · have hnone : s.error = none := by simpa using hfailed
    rw [if_neg hfailed]
    obtain ⟨hcounts, out, faults, hstream, hsink⟩ := haction
    generalize action s = res at hcounts hsink ⊢
    obtain ⟨ok, s'⟩ := res
    simp only at hsink hcounts
    subst hsink
    cases ok with
    | true => exact ⟨h.holds.flushed hstream faults, h.flagged.ok hcounts rfl rfl rfl⟩
    | false => exact ⟨(h.holds.flushed hstream faults).fail _, h.flagged.fail hnone hcounts rfl _⟩

/-- A sync without an error behind it leaves nothing in the buffer. -/
theorem guardSync_ok (h : s.guardSync.error = none) : s.guardSync.segment.out.buf = [] := by
  have hsync := sync_ok (s := s)
  rw [guardSync, FileSink.guard] at h ⊢
  split_ifs at h ⊢ with hfailed
  · simp [h] at hfailed
  · generalize s.sync = res at hsync h ⊢
    obtain ⟨ok, s'⟩ := res
    cases ok with
    | true => exact hsync rfl
    | false =>
        have hsome := fail_isSome s' ⟨ascii "sync", .segment s'.segment.name⟩
        simp only at h
        simp [h] at hsome

/-- The file of a segment whose buffer is empty. -/
theorem Holds.file_eq (h : s.Holds crc dir taken images last) (hnone : s.error = none)
    (hbuf : s.segment.out.buf = []) :
    s.segment.file = last.file crc (nextSegmentIndex dir + images.length) := by
  have hstream := (h.whole hnone).2
  rw [Buffered.stream, hbuf, List.append_nil] at hstream
  rw [OpenSegment.file, SegmentImage.file, h.name, hstream]

/-- A new segment, or an error. -/
theorem Inv.rotate (h : s.Inv crc dir taken images last) (now : UInt64) :
    ∃ images' last', (s.rotate now).Inv crc dir taken images' last' := by
  have hsync : s.guardSync.Inv crc dir taken images last := h.guard (sync_flushed s) _
  have hbuf := guardSync_ok (s := s)
  rw [FileSink.rotate]
  generalize s.guardSync = s at hsync hbuf ⊢
  by_cases hfailed : s.error.isSome
  · rw [if_pos hfailed]
    exact ⟨images, last, hsync⟩
  have hnone : s.error = none := by simpa using hfailed
  rw [if_neg hfailed]
  rcases create_spec (s.others ++ s.disk) (min (s.index + 1) u32Max) now s.faults with
    ⟨faults, hcounts, hcreate, hfresh⟩ | ⟨error, faults, hcounts, hcreate⟩
  · have hfile := hsync.holds.file_eq hnone (hbuf hnone)
    have hcount : s.index + 1 ≤ u32Max := by
      -- The last number is taken, by the open segment at the latest.
      by_contra hfull
      refine hfresh s.segment.file (by simp [disk]) ?_
      have hindex := hsync.holds.index
      have hle := hsync.holds.count
      have hlast : min (s.index + 1) u32Max = s.index := by omega
      rw [OpenSegment.file, hsync.holds.name, ← hindex, hlast]
    have hnext : min (s.index + 1) u32Max = nextSegmentIndex dir + (images ++ [last]).length := by
      rw [Nat.min_eq_left hcount, hsync.holds.index, List.length_append, List.length_singleton, Nat.add_assoc]
    have hdrop : ({ s with faults } : FileSink).dropOut = { s with faults } := by
      simp [dropOut, flushOut, Buffered.flushBuf_empty (hbuf hnone)]
    simp only [hcreate, hdrop]
    refine ⟨images ++ [last], ⟨now, [], []⟩, ?_, hsync.flagged.ok hcounts rfl rfl rfl⟩
    refine ⟨hsync.holds.others, ?_, by rw [hnext], hnext, hnext ▸ Nat.min_le_right .., ?_, ?_, ?_,
      fun _ => ?_⟩
    · simp [disk, hsync.holds.closed, hfile, imageFiles_append, imageFiles]
    · intro img hmem
      rcases List.mem_append.mp hmem with hold | hnew
      · exact hsync.holds.clean img hold
      · rw [List.mem_singleton.mp hnew]
    · simpa using hsync.holds.records
    · simp [Buffered.stream, SegmentImage.data, hnext]
    · simpa [Buffered.stream, SegmentImage.data, hnext] using (hsync.holds.whole hnone).1
  · simp only [hcreate]
    exact ⟨images, last, (hsync.holds.flushed rfl faults).fail error, hsync.flagged.fail hnone hcounts rfl error⟩

/-- The parts of a record make the record. -/
theorem flatten_recordParts (crc : Bytes → UInt32) (record : Record) :
    (recordParts crc (ringRecord record.header record.payload)).flatten = record.bytes crc := by
  rw [Record.bytes, ← emit_ringRecord]
  simp [recordParts, Sink.emit]

/-- A record in the open segment, or a part of it and an error. -/
theorem Inv.put (h : s.Inv crc dir taken images last) (hnone : s.error = none) (record : FittingRecord) :
    ∃ last', (s.put crc (ringRecord record.header record.payload)).Inv crc dir
      (taken ++ [record]) images last' := by
  have hwrote := Buffered.writeParts_wrote outCapacity
    (recordParts crc (ringRecord record.header record.payload)) s.segment.out s.faults
  obtain ⟨hrecords, hstream⟩ := h.holds.whole hnone
  have htorn : last.torn = [] := h.holds.clean last (by simp)
  rw [flatten_recordParts] at hwrote
  rw [FileSink.put]
  generalize Buffered.writeParts outCapacity _ s.segment.out s.faults = res at hwrote ⊢
  obtain ⟨ok, out, faults⟩ := res
  obtain ⟨part, hpart, hout, hwhole⟩ := hwrote.part
  have hcounts := hwrote.counts
  simp only at hout hwhole hcounts
  have hdata : SegmentImage.data crc { last with records := last.records ++ [record.toRecord] }
      (nextSegmentIndex dir + images.length) =
        last.data crc (nextSegmentIndex dir + images.length) ++ record.bytes crc := by
    simp [SegmentImage.data, htorn, recordBytes_append]
  refine ⟨{ last with records := last.records ++ [record.toRecord] }, ?_⟩
  have hclean : ∀ img ∈ images ++ [{ last with records := last.records ++ [record.toRecord] }],
      img.torn = [] := by
    intro img hmem
    rcases List.mem_append.mp hmem with hold | hnew
    · exact h.holds.clean img (by simp [hold])
    · rw [List.mem_singleton.mp hnew]
      exact htorn
  have htaken : images.flatMap SegmentImage.records ++ (last.records ++ [record.toRecord]) =
      (taken ++ [record]).map FittingRecord.toRecord := by
    simp [← hrecords]
  have hfirst : out.stream <+: SegmentImage.data crc { last with records := last.records ++ [record.toRecord] }
      (nextSegmentIndex dir + images.length) := by
    rw [hout, hstream, hdata]
    exact (List.prefix_append_right_inj _).mpr hpart
  cases ok with
  | true =>
      refine ⟨⟨h.holds.others, h.holds.closed, h.holds.name, h.holds.index, h.holds.count, hclean,
        htaken ▸ List.prefix_refl _, hfirst, fun _ => ⟨htaken, ?_⟩⟩, h.flagged.ok hcounts rfl rfl rfl⟩
      rw [hdata, ← hstream, ← hwhole rfl]
      exact hout
  | false =>
      refine ⟨⟨h.holds.others, h.holds.closed, h.holds.name, h.holds.index, h.holds.count, hclean,
        htaken ▸ List.prefix_refl _, hfirst, fun hnone' => ?_⟩, h.flagged.fail hnone hcounts rfl _⟩
      exact absurd hnone' (by simp [FileSink.fail, hnone])

/-- A record from the ring. -/
theorem Inv.write (h : s.Inv crc dir taken images last) (record : FittingRecord) (now : UInt64) :
    ∃ images' last', (s.write crc (ringRecord record.header record.payload) now).Inv crc dir
      (taken ++ [record]) images' last' := by
  have hlose : ∀ {s : FileSink}, s.error.isSome = true → s.Frozen s.lose :=
    fun hsome => ⟨hsome, rfl, rfl, rfl, rfl, rfl, rfl, rfl⟩
  rw [FileSink.write]
  by_cases hfailed : s.error.isSome
  · rw [if_pos hfailed]
    exact ⟨images, last, h.frozen (hlose hfailed) [record]⟩
  · have hnone : s.error = none := by simpa using hfailed
    rw [if_neg hfailed]
    by_cases hfull : s.segment.bytes ≥ s.segmentBytes
    · rw [if_pos hfull]
      obtain ⟨images', last', hrotate⟩ := h.rotate now
      by_cases hfailed' : (s.rotate now).error.isSome
      · simp only [if_pos hfailed']
        exact ⟨images', last', hrotate.frozen (hlose hfailed') [record]⟩
      · simp only [if_neg hfailed']
        obtain ⟨last'', hput⟩ := hrotate.put (by simpa using hfailed') record
        exact ⟨images', last'', hput⟩
    · rw [if_neg hfull]
      obtain ⟨last', hput⟩ := h.put hnone record
      exact ⟨images, last', hput⟩

/-! ## §4 Runs -/

/-- The records that actions take from the ring. -/
def takenBy : List SinkAction → List FittingRecord
  | [] => []
  | .write record _ :: rest => record :: takenBy rest
  | _ :: rest => takenBy rest

theorem takenBy_append (xs ys : List SinkAction) : takenBy (xs ++ ys) = takenBy xs ++ takenBy ys := by
  induction xs with
  | nil => rfl
  | cons action rest ih => cases action <;> simp [takenBy, ih]

/-- One action keeps the invariant. -/
theorem Inv.step (h : s.Inv crc dir taken images last) (action : SinkAction) :
    ∃ images' last', (s.step crc action).Inv crc dir (taken ++ takenBy [action]) images' last' := by
  cases action with
  | write record now => exact h.write record now
  | flush =>
      refine ⟨images, last, ?_⟩
      simp only [takenBy, List.append_nil]
      exact h.guard (flushOut_flushed s) _
  | sync =>
      refine ⟨images, last, ?_⟩
      simp only [takenBy, List.append_nil]
      exact h.guard (sync_flushed s) _
  | dropped =>
      refine ⟨images, last, ?_, ⟨h.flagged.error, h.flagged.failures⟩⟩
      simp only [takenBy, List.append_nil]
      exact ⟨h.holds.others, h.holds.closed, h.holds.name, h.holds.index, h.holds.count, h.holds.clean,
        h.holds.records, h.holds.stream, h.holds.whole⟩

theorem Inv.steps : ∀ (actions : List SinkAction) {taken : List FittingRecord} {s : FileSink}
    {images : List SegmentImage} {last : SegmentImage}, s.Inv crc dir taken images last →
    ∃ images' last', (s.steps crc actions).Inv crc dir (taken ++ takenBy actions) images' last' := by
  intro actions
  induction actions with
  | nil => intro taken s images last h; exact ⟨images, last, by simpa [takenBy, FileSink.steps] using h⟩
  | cons action rest ih =>
      intro taken s images last h
      obtain ⟨images', last', hstep⟩ := h.step action
      obtain ⟨images'', last'', hrest⟩ := ih hstep
      rw [List.append_assoc, ← takenBy_append] at hrest
      exact ⟨images'', last'', hrest⟩

theorem steps_append (crc : Bytes → UInt32) (s : FileSink) (xs ys : List SinkAction) :
    s.steps crc (xs ++ ys) = (s.steps crc xs).steps crc ys := List.foldl_append ..

theorem nextSegmentIndex_le (dir : List JournalFile) : nextSegmentIndex dir ≤ u32Max := by
  unfold nextSegmentIndex
  split
  · exact Nat.zero_le _
  · exact Nat.min_le_right ..

/-- The sink of a new run. -/
theorem start_spec {segmentBytes : Nat} {created : UInt64} {plan : List (Option Nat)}
    (hstart : start dir segmentBytes created plan = .ok s) :
    (∃ faults, faults.failures = 0 ∧
      s = ⟨dir, [], segmentBytes, ⟨0, false⟩,
        ⟨segmentName (nextSegmentIndex dir), ⟨[], encodeFileHeader (nextSegmentIndex dir) created⟩,
          fileHeaderLen⟩, nextSegmentIndex dir, ⟨0, 0, 1, 0⟩, none, faults⟩) ∧
      ∀ file ∈ dir, file.name ≠ segmentName (nextSegmentIndex dir) := by
  have hmkdir := Faults.attempt_counts ⟨plan, 0⟩
  rw [start] at hstart
  generalize (⟨plan, 0⟩ : Faults).attempt = res at hmkdir hstart
  obtain ⟨ok, faults⟩ := res
  cases ok with
  | false => cases hstart
  | true =>
      have hlist := Faults.attempt_counts faults
      simp only at hstart
      generalize faults.attempt = res at hlist hstart
      obtain ⟨ok, faults'⟩ := res
      cases ok with
      | false => cases hstart
      | true =>
          simp only at hstart
          rcases create_spec dir (nextSegmentIndex dir) created faults' with
            ⟨faults'', hcounts, hcreate, hfresh⟩ | ⟨error, faults'', hcounts, hcreate⟩
          · simp only [hcreate, segmentIndex_segmentName (nextSegmentIndex_le dir), Option.getD_some] at hstart
            cases hstart
            refine ⟨⟨faults'', ?_, rfl⟩, hfresh⟩
            simp only [Faults.Counts] at hmkdir hlist hcounts
            simp [hcounts, hlist, hmkdir]
          · simp only [hcreate] at hstart
            cases hstart

theorem start_inv (crc : Bytes → UInt32) {segmentBytes : Nat} {created : UInt64} {plan : List (Option Nat)}
    (hstart : start dir segmentBytes created plan = .ok s) :
    s.Inv crc dir [] [] ⟨created, [], []⟩ := by
  obtain ⟨⟨faults, hzero, rfl⟩, -⟩ := start_spec hstart
  refine ⟨⟨rfl, rfl, rfl, rfl, nextSegmentIndex_le dir, by simp, by simp, ?_, fun _ => ⟨rfl, ?_⟩⟩, rfl, hzero⟩
  · simp [Buffered.stream, SegmentImage.data]
  · simp [Buffered.stream, SegmentImage.data]

/-- The complete records of files, one file after the other. -/
def recordsOn (crc : Bytes → UInt32) (files : List JournalFile) : List Record :=
  files.flatMap fun file => (fileRecords crc (some file.data)).1

theorem recordsOn_imageFiles : ∀ (images : List SegmentImage) (index : Nat),
    (∀ img ∈ images, img.torn = []) → (∀ img ∈ images, ∀ record ∈ img.records, record.Fits) →
    recordsOn crc (imageFiles crc index images) = images.flatMap SegmentImage.records := by
  intro images
  induction images with
  | nil => intro index _ _; rfl
  | cons img rest ih =>
      intro index hclean hfits
      have hrest := ih (index + 1) (fun x hx => hclean x (by simp [hx])) (fun x hx => hfits x (by simp [hx]))
      have hfirst : (fileRecords crc (some (img.data crc index))).1 = img.records :=
        fileRecords_data (hfits img (by simp)) (fun hne => absurd (hclean img (by simp)) hne) index
      simp only [recordsOn, imageFiles, List.flatMap_cons, SegmentImage.file, hfirst] at hrest ⊢
      rw [hrest]

theorem Holds.fits (h : s.Holds crc dir taken images last) :
    ∀ img ∈ images ++ [last], ∀ record ∈ img.records, record.Fits := by
  intro img himg record hrecord
  have hmem : record ∈ images.flatMap SegmentImage.records ++ last.records := by
    rw [← List.flatMap_singleton SegmentImage.records last, ← List.flatMap_append]
    exact List.mem_flatMap.mpr ⟨img, himg, hrecord⟩
  obtain ⟨fitting, -, rfl⟩ := List.mem_map.mp (h.records.subset hmem)
  exact fitting.fits

/-- The records on disk are the first of those taken. -/
theorem Holds.recordsOn_disk (h : s.Holds crc dir taken images last) :
    recordsOn crc s.disk <+: taken.map FittingRecord.toRecord := by
  have hclosed : recordsOn crc (imageFiles crc (nextSegmentIndex dir) images) = _ :=
    recordsOn_imageFiles images (nextSegmentIndex dir) (fun img himg => h.clean img (by simp [himg]))
      (fun img himg => h.fits img (by simp [himg]))
  have hlast : (fileRecords crc (some s.segment.file.data)).1 <+: last.records :=
    fileRecords_first (h.fits last (by simp)) (h.clean last (by simp))
      ((List.prefix_append ..).trans h.stream)
  rw [disk, h.closed, recordsOn, List.flatMap_append]
  rw [recordsOn] at hclosed
  rw [hclosed, List.flatMap_singleton]
  exact ((List.prefix_append_right_inj _).mpr hlast).trans h.records

/-- Where nothing failed and nothing is in the buffer, they are all there. -/
theorem Holds.recordsOn_whole (h : s.Holds crc dir taken images last) (hnone : s.error = none)
    (hbuf : s.segment.out.buf = []) : recordsOn crc s.disk = taken.map FittingRecord.toRecord := by
  have hdisk : s.disk = imageFiles crc (nextSegmentIndex dir) (images ++ [last]) := by
    rw [imageFiles_append, disk, h.closed, h.file_eq hnone hbuf]
    rfl
  rw [hdisk, recordsOn_imageFiles _ _ h.clean h.fits, List.flatMap_append, List.flatMap_singleton]
  exact (h.whole hnone).1

theorem Holds.named (h : s.Holds crc dir taken images last) : Named (nextSegmentIndex dir) s.disk := by
  rw [disk, h.closed]
  refine (named_imageFiles crc _ images).append ⟨?_, trivial⟩
  rw [length_imageFiles]
  exact h.name

/-- The journal of a run has no hole: its segments are numbered one after the other, behind
the files that were there, and what is complete in them is the first of the records taken.
The flag is set if an operation has failed, and then the journal's health is so. -/
structure NoHole (crc : Bytes → UInt32) (dir : List JournalFile) (taken : List FittingRecord)
    (s : FileSink) : Prop where
  others : s.others = dir
  named : Named (nextSegmentIndex dir) s.disk
  records : recordsOn crc s.disk <+: taken.map FittingRecord.toRecord
  failed : s.shared.failed = true ↔ 0 < s.faults.failures
  health : s.shared.health = .failed ↔ 0 < s.faults.failures

/-- Behind a failure nothing comes to the disk, neither then nor at the end of the run, and
the health stays failed. -/
structure Stopped (s s' : FileSink) : Prop where
  disk : s'.disk = s.disk
  closed : s'.close.disk = s.close.disk
  failed : s'.shared.failed = true
  health : s'.shared.health = .failed

theorem Flagged.failed_iff (h : s.Flagged) : s.shared.failed = true ↔ 0 < s.faults.failures := by
  rw [h.failures]
  cases s.shared.failed <;> simp

theorem Inv.noHole (h : s.Inv crc dir taken images last) : s.NoHole crc dir taken where
  others := h.holds.others
  named := h.holds.named
  records := h.holds.recordsOn_disk
  failed := h.flagged.failed_iff
  health := s.shared.health_failed.trans h.flagged.failed_iff

/-- What the end of a run does: a last sync, and a flush if that failed. -/
theorem Inv.close (h : s.Inv crc dir taken images last) :
    s.close.Holds crc dir taken images last ∧
      (s.close.shared.failed = true ↔ 0 < s.close.faults.failures) ∧
      (s.close.error = none → s.close.segment.out.buf = []) := by
  have hsync : s.guardSync.Inv crc dir taken images last := h.guard (sync_flushed s) _
  have hbuf := guardSync_ok (s := s)
  rw [FileSink.close]
  generalize s.guardSync = s at hsync hbuf ⊢
  obtain ⟨hcounts, out, faults, hstream, hsink⟩ := flushOut_flushed s
  have hdrop : s.dropOut = { s with segment := { s.segment with out }, faults } := hsink
  refine ⟨hdrop ▸ hsync.holds.flushed hstream faults, ?_, ?_⟩
  · have hflag := hsync.flagged.failed_iff
    by_cases hnone : s.error = none
    · have hempty : s.dropOut = s := by
        simp [dropOut, flushOut, Buffered.flushBuf_empty (hbuf hnone)]
      rw [hempty]
      exact hflag
    · have hfailed : s.shared.failed = true := by
        rw [← hsync.flagged.error]
        exact Option.isSome_iff_ne_none.mpr hnone
      have hpos := hflag.mp hfailed
      have hmore : s.dropOut.faults.failures = s.faults.failures + if s.flushOut.1 then 0 else 1 := hcounts
      rw [hmore]
      have hkeeps : s.dropOut.shared.failed = true := hfailed
      simp only [hkeeps, true_iff]
      omega
  · intro hnone
    have hempty := hbuf hnone
    simp [dropOut, flushOut, Buffered.flushBuf_empty hempty, hempty]

theorem Inv.close_noHole (h : s.Inv crc dir taken images last) : s.close.NoHole crc dir taken := by
  obtain ⟨hholds, hfailed, -⟩ := h.close
  exact ⟨hholds.others, hholds.named, hholds.recordsOn_disk, hfailed,
    s.close.shared.health_failed.trans hfailed⟩

theorem Frozen.stopped (h : s.Frozen s') (hflag : s.shared.failed = true) : s.Stopped s' := by
  have hflag' : s'.shared.failed = true := by rw [h.flag]; exact hflag
  have hfailed' : s'.error.isSome = true := by rw [h.error]; exact h.failed
  refine ⟨by rw [disk, disk, h.closed, h.segment], ?_, hflag', s'.shared.health_failed.mpr hflag'⟩
  rw [close, close, guardSync, guardSync, guard_failed h.failed, guard_failed hfailed']
  simp [dropOut, flushOut, disk, h.closed, h.segment, h.faults]

/-- **A write failure leaves no hole.** Over any directory, any plan of what becomes of the
operations on files, any actions, and at the end of the run after them: what is complete on
disk is the first of the records taken from the ring, and the flag and the health tell
whether an operation has failed. Behind a failure nothing comes to the disk but what was
in the buffer. -/
theorem write_failures_leave_no_hole (crc : Bytes → UInt32) {dir : List JournalFile} {segmentBytes : Nat}
    {created : UInt64} {plan : List (Option Nat)} {s : FileSink}
    (hstart : start dir segmentBytes created plan = .ok s) (before more : List SinkAction) :
    (s.steps crc before).NoHole crc dir (takenBy before) ∧
      (s.steps crc before).close.NoHole crc dir (takenBy before) ∧
      (0 < (s.steps crc before).faults.failures →
        (s.steps crc before).Stopped (s.steps crc (before ++ more))) := by
  obtain ⟨images, last, hinv⟩ := (start_inv crc hstart).steps before
  rw [List.nil_append] at hinv
  refine ⟨hinv.noHole, hinv.close_noHole, fun hfailures => ?_⟩
  have hflag := hinv.flagged.failed_iff.mpr hfailures
  rw [steps_append]
  exact (steps_frozen crc more _ (hinv.flagged.error.trans hflag)).stopped hflag

theorem sampleRecord_fits : sampleRecord.Fits := by
  unfold Record.Fits
  decide

/-- A record to take from the ring. -/
def sampleFitting : FittingRecord := ⟨sampleRecord, sampleRecord_fits⟩

/-- The sink of a run over an empty directory whose first write to a file fails after 40
bytes: the file header and a part of a record. -/
def sampleSink : FileSink where
  others := []
  closed := []
  segmentBytes := 1000
  shared := ⟨0, false⟩
  segment := ⟨segmentName 0, ⟨[], encodeFileHeader 0 5⟩, 32⟩
  index := 0
  stats := ⟨0, 0, 1, 0⟩
  error := none
  faults := ⟨[some 40], 0⟩

theorem sampleSink_start : start [] 1000 5 [none, none, none, some 40] = .ok sampleSink := by
  decide +kernel

/-- Two records with a flush that fails between them. -/
def failingActions : List SinkAction := [.write sampleFitting 6, .flush, .write sampleFitting 7]

theorem write_failures_leave_no_hole_sample :
    0 < (sampleSink.steps crc32 failingActions).faults.failures ∧
      (sampleSink.steps crc32 failingActions).NoHole crc32 [] (takenBy failingActions) ∧
      (sampleSink.steps crc32 failingActions).close.NoHole crc32 [] (takenBy failingActions) ∧
      (sampleSink.steps crc32 failingActions).Stopped
        (sampleSink.steps crc32 (failingActions ++ failingActions)) := by
  have hfailed : 0 < (sampleSink.steps crc32 failingActions).faults.failures := by decide +kernel
  obtain ⟨hholes, hclosed, hstopped⟩ :=
    write_failures_leave_no_hole crc32 sampleSink_start failingActions failingActions
  exact ⟨hfailed, hholes, hclosed, hstopped hfailed⟩

/-- The actions of one round of the loop. -/
def roundActions (round : WriterRound) : List SinkAction :=
  List.replicate round.drops .dropped ++ round.writes.map (fun write => .write write.1 write.2) ++
    (if round.flushDue then [.flush] else []) ++ (if round.syncDue then [.sync] else [])

/-- The actions of the loop. -/
def loopActions : List WriterRound → List SinkAction
  | [] => []
  | round :: rest =>
      roundActions round ++ if round.stopping && round.writes.isEmpty then [] else loopActions rest

theorem steps_dropped (crc : Bytes → UInt32) (n : Nat) (s : FileSink) :
    s.steps crc (List.replicate n .dropped) = Nat.repeat dropRecord n s := by
  induction n with
  | zero => rfl
  | succ n ih =>
      rw [List.replicate_succ', steps_append, ih]
      rfl

theorem steps_writes (crc : Bytes → UInt32) (writes : List (FittingRecord × UInt64)) (s : FileSink) :
    s.steps crc (writes.map fun write => .write write.1 write.2) =
      writes.foldl (fun s write => s.write crc (ringRecord write.1.header write.1.payload) write.2) s := by
  rw [steps, List.foldl_map]
  rfl

theorem round_steps (crc : Bytes → UInt32) (s : FileSink) (round : WriterRound) :
    s.round crc round = s.steps crc (roundActions round) := by
  rw [roundActions, steps_append, steps_append, steps_append, steps_dropped, steps_writes, FileSink.round]
  cases round.flushDue <;> cases round.syncDue <;> rfl

/-- The loop of the writer is a run of actions. -/
theorem loop_steps (crc : Bytes → UInt32) : ∀ (rounds : List WriterRound) (s : FileSink),
    s.loop crc rounds = s.steps crc (loopActions rounds) := by
  intro rounds
  induction rounds with
  | nil => intro s; rfl
  | cons round rest ih =>
      intro s
      rw [loop, loopActions, steps_append, ← round_steps]
      split_ifs with hstop
      · rfl
      · exact ih _

/-- What `Writer::run` returns and leaves: an error where an operation failed, and else the
counters, with every record taken on disk. -/
theorem run_complete (crc : Bytes → UInt32) {segmentBytes : Nat} {created : UInt64}
    {plan : List (Option Nat)} (hstart : start dir segmentBytes created plan = .ok s)
    (rounds : List WriterRound) :
    (s.run crc rounds).2.NoHole crc dir (takenBy (loopActions rounds)) ∧
      ((∃ error, (s.run crc rounds).1 = .error error) ∨
        recordsOn crc (s.run crc rounds).2.disk =
          (takenBy (loopActions rounds)).map FittingRecord.toRecord) := by
  obtain ⟨images, last, hinv⟩ := (start_inv crc hstart).steps (loopActions rounds)
  rw [List.nil_append, ← loop_steps] at hinv
  refine ⟨hinv.close_noHole, ?_⟩
  obtain ⟨hholds, -, hbuf⟩ := hinv.close
  simp only [run, result]
  cases herror : (s.loop crc rounds).close.error with
  | some error => exact .inl ⟨error, rfl⟩
  | none => exact .inr (hholds.recordsOn_whole herror (hbuf herror))

/-! ## §5 Refined -/

/-- The sink whose operations succeed, with what the buffer holds written. -/
def toSink (s : FileSink) : Sink where
  closed := s.others ++ s.closed
  segmentBytes := s.segmentBytes
  segment := ⟨s.segment.name, s.segment.out.stream, s.segment.bytes⟩
  index := s.index
  stats := s.stats
  error := none

theorem start_toSink {segmentBytes : Nat} {created : UInt64} {plan : List (Option Nat)}
    (hstart : start dir segmentBytes created plan = .ok s) :
    Sink.start dir segmentBytes created = .ok s.toSink := by
  obtain ⟨⟨faults, -, rfl⟩, hfresh⟩ := start_spec hstart
  have hcreate : Segment.create dir (nextSegmentIndex dir) created = .ok
      ⟨segmentName (nextSegmentIndex dir), encodeFileHeader (nextSegmentIndex dir) created, fileHeaderLen⟩ := by
    rw [Segment.create, if_neg (by simpa using hfresh)]
  have hindex := segmentIndex_segmentName (nextSegmentIndex_le dir)
  rw [Sink.start, hcreate]
  change Except.ok (⟨dir, segmentBytes, _, (segmentIndex (segmentName (nextSegmentIndex dir))).getD 0,
    ⟨0, 0, 1, 0⟩, none⟩ : Sink) = _
  rw [hindex]
  simp [toSink, Buffered.stream]

/-- An operation on the open segment, for the sink without a buffer. -/
theorem guard_toSink {action : FileSink → Bool × FileSink} (haction : s.Flushed (action s)) (op : Bytes) :
    (s.guard op action).toSink = s.toSink := by
  obtain ⟨-, out, faults, hstream, hsink⟩ := haction
  have heq : (action s).2.toSink = s.toSink := by
    rw [hsink]
    simp [toSink, hstream]
  rw [FileSink.guard]
  split_ifs with hfailed
  · rfl
  · generalize action s = res at heq ⊢
    obtain ⟨ok, s'⟩ := res
    cases ok with
    | true => exact heq
    | false => exact heq

theorem rotate_toSink {now : UInt64} (hok : (s.rotate now).error = none) :
    (s.rotate now).toSink = s.toSink.rotate now := by
  have hsync : s.guardSync.toSink = s.toSink := guard_toSink (sync_flushed s) _
  have hbuf := guardSync_ok (s := s)
  rw [FileSink.rotate] at hok ⊢
  rw [← hsync]
  generalize s.guardSync = s at hbuf hok ⊢
  by_cases hfailed : s.error.isSome
  · rw [if_pos hfailed] at hok
    simp [hok] at hfailed
  have hnone : s.error = none := by simpa using hfailed
  rw [if_neg hfailed] at hok ⊢
  rcases create_spec (s.others ++ s.disk) (min (s.index + 1) u32Max) now s.faults with
    ⟨faults, -, hcreate, hfresh⟩ | ⟨error, faults, -, hcreate⟩
  · have hempty := hbuf hnone
    have hcreate' : Segment.create s.toSink.files (min (s.index + 1) u32Max) now = .ok
        ⟨segmentName (min (s.index + 1) u32Max), encodeFileHeader (min (s.index + 1) u32Max) now,
          fileHeaderLen⟩ := by
      have hnames : ∀ file ∈ s.toSink.files, file.name ≠ segmentName (min (s.index + 1) u32Max) := by
        intro file hmem
        simp only [Sink.files, toSink, List.mem_append, List.mem_singleton] at hmem
        rcases hmem with hold | rfl
        · exact hfresh file (by simp [disk, ← or_assoc, hold])
        · exact hfresh s.segment.file (by simp [disk])
      rw [Segment.create, if_neg (by simpa using hnames)]
    have hdrop : ({ s with faults } : FileSink).dropOut = { s with faults } := by
      simp [dropOut, flushOut, Buffered.flushBuf_empty hempty]
    have hindex : s.toSink.index = s.index := rfl
    rw [Sink.rotate]
    simp only [hcreate, hdrop, hindex, hcreate']
    simp [toSink, disk, Sink.files, OpenSegment.file, Buffered.stream, hempty]
  · simp only [hcreate] at hok
    simp [FileSink.fail] at hok

theorem put_toSink {record : Bytes} (hok : (s.put crc record).error = none) :
    (s.put crc record).toSink = s.toSink.put crc record := by
  have hwrote := Buffered.writeParts_wrote outCapacity (recordParts crc record) s.segment.out s.faults
  have hemit : (recordParts crc record).flatten = Sink.emit crc record := by
    simp [recordParts, Sink.emit]
  rw [FileSink.put] at hok ⊢
  generalize Buffered.writeParts outCapacity (recordParts crc record) s.segment.out s.faults = res
    at hwrote hok ⊢
  obtain ⟨ok, out, faults⟩ := res
  cases ok with
  | true =>
      have hstream := (hwrote.ok rfl).1
      simp only at hstream
      simp [toSink, Sink.put, hstream, hemit]
  | false => simp [FileSink.fail] at hok

theorem write_toSink {record : Bytes} {now : UInt64} (hok : (s.write crc record now).error = none) :
    (s.write crc record now).toSink = s.toSink.write crc record now := by
  have hsound : ¬ s.toSink.error.isSome = true := by simp [toSink]
  rw [FileSink.write] at hok ⊢
  rw [Sink.write, if_neg hsound]
  by_cases hfailed : s.error.isSome
  · rw [if_pos hfailed] at hok
    simp only [lose] at hok
    simp [hok] at hfailed
  · rw [if_neg hfailed] at hok ⊢
    have hsame : (s.toSink.segment.bytes ≥ s.toSink.segmentBytes) = (s.segment.bytes ≥ s.segmentBytes) := rfl
    simp only [hsame]
    by_cases hfull : s.segment.bytes ≥ s.segmentBytes
    · simp only [if_pos hfull] at hok ⊢
      by_cases hfailed' : (s.rotate now).error.isSome
      · simp only [if_pos hfailed', lose] at hok
        simp [hok] at hfailed'
      · simp only [if_neg hfailed'] at hok ⊢
        have hrotate : (s.rotate now).toSink = _ := rotate_toSink (by simpa using hfailed')
        rw [← hrotate, put_toSink hok]
        rfl
    · simp only [if_neg hfull] at hok ⊢
      rw [put_toSink hok]
      rfl

/-- The writes among actions. -/
def writesOf : List SinkAction → List (Record × UInt64)
  | [] => []
  | .write record now :: rest => (record.toRecord, now) :: writesOf rest
  | _ :: rest => writesOf rest

/-- Where nothing fails, this sink is the one whose operations succeed. -/
theorem steps_toSink (crc : Bytes → UInt32) : ∀ (actions : List SinkAction) (s : FileSink),
    (s.steps crc actions).error = none →
      (s.steps crc actions).toSink = s.toSink.writeAll crc (writesOf actions) := by
  intro actions
  induction actions with
  | nil => intro s _; rfl
  | cons action rest ih =>
      intro s hok
      have hrest := ih (s.step crc action) hok
      have hstep : (s.step crc action).error = none := by
        by_contra hfailed
        have hfrozen := steps_frozen crc rest (s.step crc action) (Option.isSome_iff_ne_none.mpr hfailed)
        exact hfailed (hfrozen.error.symm.trans hok)
      have hcons : s.steps crc (action :: rest) = (s.step crc action).steps crc rest := rfl
      rw [hcons, hrest]
      cases action with
      | write record now =>
          rw [writesOf, Sink.writeAll_cons, ← write_toSink hstep]
          rfl
      | flush =>
          rw [step, guardFlush, guard_toSink (flushOut_flushed s)]
          rfl
      | sync =>
          rw [step, guardSync, guard_toSink (sync_flushed s)]
          rfl
      | dropped => rfl

end FileSink

end Bowst.Journal
