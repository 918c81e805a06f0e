/-
Bowst.Journal.FileReaderTheorems — what a reader returns of a damaged journal.

While every segment come to was loaded, the records returned and those ahead are the
intact records. A call after a load that failed may go on behind the damage: the
counterexample does so in both ways there are.

  §1 Ahead   — what is still to come, from the reader's position.
  §2 Calls   — what one call keeps.
  §3 Runs    — what calls return.
  §4 Refined — the reader of files that can all be read.
-/
import Bowst.Journal.FileReader
import Bowst.Journal.JournalTheorems

namespace Bowst.Journal

open Bowst.Lib
open Bowst.Core (Bytes)

/-! ## §1 Ahead -/

section Ahead

variable {crc : Bytes → UInt32} {data : Bytes}

theorem decodeRun_end {pos : Nat} (h : data.length ≤ pos) (rounds : Nat) :
    decodeRun crc data rounds pos = ([], pos) := by
  cases rounds with
  | zero => rfl
  | succ rounds => rw [decodeRun, if_neg (by omega)]

/-- A record at a position, and the records behind it. -/
theorem decodeRun_record {rounds pos len : Nat} {header : RecordHeader} (hpos : pos < data.length)
    (h : decodeRecord crc (getFrom data pos) pos = .ok (.record header len)) :
    decodeRun crc data (rounds + 1) pos =
      (⟨header, slice data (pos + recordHeaderLen) (len - recordHeaderLen)⟩ ::
        (decodeRun crc data rounds (pos + len)).1, (decodeRun crc data rounds (pos + len)).2) := by
  rw [decodeRun, if_pos hpos, h]

/-- A position at which no record decodes. -/
theorem decodeRun_stop {rounds pos : Nat}
    (h : ∀ header len, decodeRecord crc (getFrom data pos) pos ≠ .ok (.record header len)) :
    decodeRun crc data rounds pos = ([], pos) := by
  cases rounds with
  | zero => rfl
  | succ rounds =>
      rw [decodeRun]
      split_ifs with hpos
      · split
        · next header len heq => exact absurd heq (h header len)
        · rfl
      · rfl

/-- Rounds beyond the bytes that are left change nothing. -/
theorem decodeRun_rounds : ∀ (m n pos : Nat), data.length - pos ≤ m → data.length - pos ≤ n →
    decodeRun crc data m pos = decodeRun crc data n pos := by
  intro m
  induction m with
  | zero =>
      intro n pos hm _
      rw [decodeRun_end (by omega), decodeRun_end (by omega)]
  | succ m ih =>
      intro n pos hm hn
      by_cases hpos : pos < data.length
      · obtain ⟨n, rfl⟩ : ∃ k, n = k + 1 := ⟨n - 1, by omega⟩
        by_cases hrecord : ∃ header len, decodeRecord crc (getFrom data pos) pos = .ok (.record header len)
        · obtain ⟨header, len, hdecode⟩ := hrecord
          have hlen := (decodeRecord_record crc hdecode).1
          unfold recordHeaderLen at hlen
          rw [decodeRun_record hpos hdecode, decodeRun_record hpos hdecode,
            ih n (pos + len) (by omega) (by omega)]
        · have hnone : ∀ header len,
              decodeRecord crc (getFrom data pos) pos ≠ .ok (.record header len) :=
            fun header len h => hrecord ⟨header, len, h⟩
          rw [decodeRun_stop hnone, decodeRun_stop hnone]
      · rw [decodeRun_end (by omega), decodeRun_end (by omega)]

end Ahead

namespace FileReader

variable (crc : Bytes → UInt32)

/-- The intact records from the reader's position on. -/
def ahead (r : FileReader) : List Record :=
  let run := decodeRun crc r.data r.data.length r.pos
  if r.data.length ≤ run.2 then run.1 ++ intact crc (r.files.drop r.nextFile) else run.1

/-- The segment come to last was loaded: its file could be read and its header decodes. -/
def Loaded (r : FileReader) : Prop :=
  ∀ file, r.current = some file →
    ∃ data segment, file.contents = some data ∧ decodeFileHeader data = .ok segment

/-- The reader holds the contents of the segment come to last, and none before the first. -/
structure Holds (r : FileReader) : Prop where
  bound : r.nextFile ≤ r.files.length
  fresh : r.nextFile = 0 → r.data = []
  contents : ∀ file, r.current = some file → file.contents = some r.data

variable {crc}

theorem ahead_end {r : FileReader} (h : r.data.length ≤ r.pos) :
    r.ahead crc = intact crc (r.files.drop r.nextFile) := by
  simp [ahead, decodeRun_end h, h]

/-- What the next segment holds is ahead of a reader at its start. -/
theorem ahead_load {r : FileReader} {file : SegmentFile} {data : Bytes} {segment : Nat}
    (hfile : r.files[r.nextFile]? = some file) (hcontents : file.contents = some data)
    (hheader : decodeFileHeader data = .ok segment) :
    ahead crc { r with nextFile := r.nextFile + 1, data := data, pos := fileHeaderLen } =
      intact crc (r.files.drop r.nextFile) := by
  obtain ⟨hlt, hget⟩ := List.getElem?_eq_some_iff.mp hfile
  rw [List.drop_eq_getElem_cons hlt, hget]
  simp [ahead, intact, fileRecords, hcontents, hheader]

/-! ## §2 Calls -/

theorem current_load {r : FileReader} {file : SegmentFile} (hfile : r.files[r.nextFile]? = some file)
    (data : Bytes) (pos : Nat) :
    current { r with nextFile := r.nextFile + 1, data := data, pos := pos } = some file := by
  simp [current, hfile]

/-- What the loop over segments comes to: a record's place, the end, or a segment that
cannot be loaded. -/
def Skipped (crc : Bytes → UInt32) (r : FileReader) : Except FileError Bool × FileReader → Prop
  | (.ok true, r') => r'.pos < r'.data.length ∧ r'.files = r.files ∧ r'.Holds ∧ r'.Loaded ∧
      r'.ahead crc = r.ahead crc
  | (.ok false, r') => r'.files = r.files ∧ r'.Holds ∧ r'.Loaded ∧ r.ahead crc = [] ∧ r'.ahead crc = []
  | (.error _, r') => r'.files = r.files ∧ ¬ r'.Loaded

/-- Going on from a reader with the same ahead. -/
theorem Skipped.of_ahead {r r₁ : FileReader} {res : Except FileError Bool × FileReader}
    (h : Skipped crc r₁ res) (hfiles : r₁.files = r.files) (hahead : r₁.ahead crc = r.ahead crc) :
    Skipped crc r res := by
  obtain ⟨_ | more, r'⟩ := res
  · exact ⟨h.1.trans hfiles, h.2⟩
  · cases more with
    | true =>
        obtain ⟨hpos, hfiles', hholds, hloaded, hahead'⟩ := h
        exact ⟨hpos, hfiles'.trans hfiles, hholds, hloaded, hahead'.trans hahead⟩
    | false =>
        obtain ⟨hfiles', hholds, hloaded, hnone, hnone'⟩ := h
        exact ⟨hfiles'.trans hfiles, hholds, hloaded, hahead ▸ hnone, hnone'⟩

theorem loadNext_none {r : FileReader} (hfile : r.files[r.nextFile]? = none) :
    r.loadNext = (.ok false, r) := by
  rw [loadNext, hfile]

theorem loadNext_ok {r : FileReader} {file : SegmentFile} {data : Bytes} {segment : Nat}
    (hfile : r.files[r.nextFile]? = some file) (hcontents : file.contents = some data)
    (hheader : decodeFileHeader data = .ok segment) :
    r.loadNext =
      (.ok true, { r with nextFile := r.nextFile + 1, data := data, pos := fileHeaderLen }) := by
  rw [loadNext, hfile]
  simp only [hcontents, hheader]

/-- A segment that cannot be loaded is the one come to last. -/
theorem loadNext_error {r : FileReader} {file : SegmentFile} (hfile : r.files[r.nextFile]? = some file)
    (h : ∀ data segment, file.contents = some data → decodeFileHeader data ≠ .ok segment) :
    ∃ error r', r.loadNext = (.error error, r') ∧ r'.files = r.files ∧ ¬ r'.Loaded := by
  have hunloaded : ∀ (data : Bytes) (pos : Nat),
      ¬ Loaded { r with nextFile := r.nextFile + 1, data := data, pos := pos } := by
    intro data pos hloaded
    obtain ⟨data', segment, hdata, hsegment⟩ := hloaded file (current_load hfile data pos)
    exact h data' segment hdata hsegment
  cases hcontents : file.contents with
  | none =>
      refine ⟨.io file.name, { r with nextFile := r.nextFile + 1 }, ?_, rfl, hunloaded r.data r.pos⟩
      rw [loadNext, hfile]
      simp only [hcontents]
  | some data =>
      cases hheader : decodeFileHeader data with
      | error error =>
          refine ⟨.read (.corrupt file.name error), { r with nextFile := r.nextFile + 1, data := data }, ?_,
            rfl, hunloaded data r.pos⟩
          rw [loadNext, hfile]
          simp only [hcontents, hheader]
      | ok segment => exact absurd hheader (h data segment hcontents)

theorem skipSegments_skipped : ∀ (rounds : Nat) (r : FileReader), r.Holds → r.Loaded →
    r.files.length - r.nextFile < rounds → Skipped crc r (skipSegments rounds r) := by
  intro rounds
  induction rounds with
  | zero => intro r _ _ h; omega
  | succ rounds ih =>
      intro r hholds hloaded hrounds
      rw [skipSegments]
      by_cases hpos : r.pos < r.data.length
      · rw [if_pos hpos]
        exact ⟨hpos, rfl, hholds, hloaded, rfl⟩
      rw [if_neg hpos]
      have hahead : r.ahead crc = _ := ahead_end (Nat.not_lt.mp hpos)
      cases hfile : r.files[r.nextFile]? with
      | none =>
          have hnone : r.files.drop r.nextFile = [] :=
            List.drop_eq_nil_of_le (List.getElem?_eq_none_iff.mp hfile)
          rw [hnone] at hahead
          rw [loadNext_none hfile]
          exact ⟨rfl, hholds, hloaded, hahead, hahead⟩
      | some file =>
          obtain ⟨hlt, -⟩ := List.getElem?_eq_some_iff.mp hfile
          by_cases hload : ∃ data segment, file.contents = some data ∧ decodeFileHeader data = .ok segment
          · obtain ⟨data, segment, hcontents, hheader⟩ := hload
            have hcurrent := current_load hfile data fileHeaderLen
            rw [loadNext_ok hfile hcontents hheader]
            have hnext := ih { r with nextFile := r.nextFile + 1, data := data, pos := fileHeaderLen }
              ⟨hlt, by simp, fun file' hfile' => by rw [hcurrent] at hfile'; cases hfile'; exact hcontents⟩
              (fun file' hfile' => by
                rw [hcurrent] at hfile'
                cases hfile'
                exact ⟨data, segment, hcontents, hheader⟩)
              (by simp only; omega)
            exact hnext.of_ahead rfl ((ahead_load hfile hcontents hheader).trans hahead.symm)
          · obtain ⟨error, r', heq, hfiles, hunloaded⟩ := loadNext_error hfile
              fun data segment hcontents hheader => hload ⟨data, segment, hcontents, hheader⟩
            rw [heq]
            exact ⟨hfiles, hunloaded⟩

/-- What a call does: a record that was ahead is returned, or nothing is. Behind a load
that failed there is nothing to say. -/
structure Called (crc : Bytes → UInt32) (r : FileReader)
    (res : Except FileError (Option Record) × FileReader) : Prop where
  files : res.2.files = r.files
  holds : res.2.Loaded → res.2.Holds
  record : ∀ record, res.1 = .ok (some record) →
    res.2.Loaded ∧ res.2.nextFile ≠ 0 ∧ r.ahead crc = record :: res.2.ahead crc
  other : (∀ record, res.1 ≠ .ok (some record)) → res.2.Loaded → res.2.ahead crc = r.ahead crc

theorem recordHere_called {r : FileReader} (hpos : r.pos < r.data.length) (hholds : r.Holds)
    (hloaded : r.Loaded) : Called crc r (r.recordHere crc) := by
  have hstarted : r.nextFile ≠ 0 := by
    intro hzero
    rw [hholds.fresh hzero] at hpos
    exact absurd hpos (Nat.not_lt_zero _)
  rw [recordHere]
  cases hdecode : decodeRecord crc (getFrom r.data r.pos) r.pos with
  | error error => exact ⟨rfl, fun _ => hholds, by simp, fun _ _ => rfl⟩
  | ok decoded =>
      cases decoded with
      | record header len =>
          have hlen := (decodeRecord_record crc hdecode).1
          unfold recordHeaderLen at hlen
          obtain ⟨rounds, hrounds⟩ : ∃ n, r.data.length = n + 1 := ⟨r.data.length - 1, by omega⟩
          have hrun : decodeRun crc r.data (rounds + 1) r.pos = _ := decodeRun_record hpos hdecode
          rw [← hrounds, decodeRun_rounds rounds r.data.length (r.pos + len) (by omega) (by omega)] at hrun
          refine ⟨rfl, fun _ => ⟨hholds.bound, hholds.fresh, hholds.contents⟩, ?_, ?_⟩
          · intro record hrecord
            cases hrecord
            refine ⟨hloaded, hstarted, ?_⟩
            simp only [ahead, hrun]
            split_ifs <;> rfl
          · intro hnone
            exact absurd rfl (hnone _)
      | incomplete =>
          have hstop : decodeRun crc r.data r.data.length r.pos = ([], r.pos) :=
            decodeRun_stop (by simp [hdecode])
          have hahead : r.ahead crc = [] := by
            simp only [ahead, hstop]
            rw [if_neg (by omega)]
          dsimp only
          split_ifs with hlater
          · exact ⟨rfl, fun _ => hholds, by simp, fun _ _ => rfl⟩
          · refine ⟨rfl, fun _ => ⟨hholds.bound, hholds.fresh, hholds.contents⟩, by simp, fun _ _ => ?_⟩
            rw [hahead, ahead_end (le_refl r.data.length)]
            exact congrArg (intact crc) (List.drop_eq_nil_of_le (Nat.not_lt.mp hlater))

theorem Called.of_ahead {r r₁ : FileReader} {res : Except FileError (Option Record) × FileReader}
    (h : Called crc r₁ res) (hfiles : r₁.files = r.files) (hahead : r₁.ahead crc = r.ahead crc) :
    Called crc r res :=
  ⟨h.files.trans hfiles, h.holds, fun record hrecord => hahead ▸ h.record record hrecord,
    fun hother hloaded => (h.other hother hloaded).trans hahead⟩

theorem nextRecord_called {r : FileReader} (hholds : r.Holds) (hloaded : r.Loaded) :
    Called crc r (r.nextRecord crc) := by
  have hskipped : Skipped crc r _ :=
    skipSegments_skipped (r.files.length + 1) r hholds hloaded (by omega)
  rw [nextRecord]
  generalize skipSegments (r.files.length + 1) r = res at hskipped ⊢
  obtain ⟨_ | more, r'⟩ := res
  · obtain ⟨hfiles, hunloaded⟩ := hskipped
    exact ⟨hfiles, fun h => absurd h hunloaded, by simp, fun _ h => absurd h hunloaded⟩
  · cases more with
    | true =>
        obtain ⟨hpos, hfiles, hholds', hloaded', hahead⟩ := hskipped
        exact (recordHere_called hpos hholds' hloaded').of_ahead hfiles hahead
    | false =>
        obtain ⟨hfiles, hholds', -, hahead, hahead'⟩ := hskipped
        exact ⟨hfiles, fun _ => hholds', by simp, fun _ _ => hahead'.trans hahead.symm⟩

/-! ## §3 Runs -/

/-- What calls keep: the records returned are intact ones, and while the segment come to
last was loaded, those ahead are the others. -/
structure Kept (crc : Bytes → UInt32) (files : List SegmentFile) (returned : List Record)
    (r : FileReader) : Prop where
  files_eq : r.files = files
  returned_intact : returned <+: intact crc files
  holds : r.Loaded → r.Holds
  rest : r.Loaded → intact crc files = returned ++ r.ahead crc

theorem after_kept {files : List SegmentFile} {r : FileReader} (hkept : Kept crc files [] r) :
    ∀ n, (∀ k < n, (r.after crc k).Loaded) → Kept crc files (r.returned crc n) (r.after crc n) := by
  intro n
  induction n with
  | zero => intro _; exact hkept
  | succ n ih =>
      intro hcalls
      have hbefore := ih fun k hk => hcalls k (by omega)
      have hloaded := hcalls n (by omega)
      have hcalled : Called crc (r.after crc n) _ := nextRecord_called (hbefore.holds hloaded) hloaded
      have hrest := hbefore.rest hloaded
      rw [after, returned, returnedAt]
      generalize (r.after crc n).nextRecord crc = res at hcalled ⊢
      obtain ⟨out, r'⟩ := res
      have hnone : (∀ record, out ≠ .ok (some record)) →
          Kept crc files (r.returned crc n ++ []) r' := by
        intro hother
        refine ⟨hcalled.files.trans hbefore.files_eq, ?_, hcalled.holds, fun hloaded' => ?_⟩
        · rw [List.append_nil]
          exact hbefore.returned_intact
        · rw [List.append_nil, hcalled.other hother hloaded']
          exact hrest
      obtain _ | _ | record := out
      · exact hnone (by simp)
      · exact hnone (by simp)
      · obtain ⟨-, -, hahead⟩ := hcalled.record record rfl
        rw [hahead, List.append_cons] at hrest
        exact ⟨hcalled.files.trans hbefore.files_eq, ⟨_, hrest.symm⟩, hcalled.holds, fun _ => hrest⟩

/-- Calls return the first of the intact records, each from a segment whose file header
decodes. -/
def StopsAtDamage (crc : Bytes → UInt32) (r : FileReader) (n : Nat) : Prop :=
  r.returned crc n <+: intact crc r.files ∧
    ∀ k < n, ∀ record ∈ r.returnedAt crc k, ∃ file segment,
      (r.after crc (k + 1)).current = some file ∧
        file.contents = some (r.after crc (k + 1)).data ∧
        decodeFileHeader (r.after crc (k + 1)).data = .ok segment

theorem openDir_kept {entries : List SegmentFile} {r : FileReader} (h : openDir entries = .ok r) :
    r = ⟨(segments entries).map Prod.snd, 0, [], 0, false⟩ ∧ Kept crc r.files [] r := by
  unfold openDir at h
  obtain ⟨-, -, h⟩ := except_bind_eq_ok.mp h
  cases h
  refine ⟨rfl, rfl, List.nil_prefix, fun _ => ⟨Nat.zero_le _, fun _ => rfl, ?_⟩, fun _ => ?_⟩
  · intro file hfile
    simp [current] at hfile
  · rw [ahead_end (le_refl _)]
    rfl

theorem after_append (r : FileReader) (n : Nat) :
    r.after crc (n + 1) = ((r.after crc n).nextRecord crc).2 := rfl

/-- The segment of a record that a call returns. -/
theorem Kept.record_segment {files : List SegmentFile} {returned : List Record} {r r' : FileReader}
    {record : Record} (hkept : Kept crc files returned r) (hloaded : r.Loaded)
    (h : r.nextRecord crc = (.ok (some record), r')) : ∃ file segment, r'.current = some file ∧
      file.contents = some r'.data ∧ decodeFileHeader r'.data = .ok segment := by
  have hcalled : Called crc r _ := nextRecord_called (hkept.holds hloaded) hloaded
  rw [h] at hcalled
  obtain ⟨hloaded', hstarted, -⟩ := hcalled.record record rfl
  have hholds := hcalled.holds hloaded'
  have hbound := hholds.bound
  have hlt : r'.nextFile - 1 < r'.files.length := by
    simp only at hstarted hbound
    omega
  have hcurrent : r'.current = some r'.files[r'.nextFile - 1] := by
    rw [current, if_neg hstarted, List.getElem?_eq_getElem hlt]
  obtain ⟨data, segment, hdata, hheader⟩ := hloaded' _ hcurrent
  have hcontents := hholds.contents _ hcurrent
  rw [hcontents] at hdata
  cases hdata
  exact ⟨_, segment, hcurrent, hcontents, hheader⟩

/-- **Reading stops at damage.** Over a directory with any files, readable or not, and any
number of calls, errors among them: if no call comes after the load of a segment failed,
the records returned are the first of the intact ones, each from a segment whose file
header decodes. -/
theorem reading_stops_at_damage (crc : Bytes → UInt32) {entries : List SegmentFile} {r : FileReader}
    (hopen : openDir entries = .ok r) (n : Nat) (hcalls : ∀ k < n, (r.after crc k).Loaded) :
    StopsAtDamage crc r n := by
  have hkept : Kept crc r.files [] r := (openDir_kept hopen).2
  refine ⟨(after_kept hkept n hcalls).returned_intact, ?_⟩
  intro k hk record hrecord
  have hbefore := after_kept hkept k fun j hj => hcalls j (by omega)
  unfold returnedAt at hrecord
  rw [after_append]
  cases hcall : (r.after crc k).nextRecord crc with
  | mk out r' =>
      rw [hcall] at hrecord
      obtain _ | _ | record' := out
      · simp at hrecord
      · simp at hrecord
      · exact hbefore.record_segment (hcalls k hk) hcall

/-- Opening a directory whose segments are listed in order. -/
theorem openDir_listed {entries : List SegmentFile} {listed : List (Nat × SegmentFile)}
    (hlisted : (entries.filterMap fun file =>
      (segmentIndex file.name).map fun index => (index, file)) = listed)
    (hsorted : listed.Pairwise fun a b => decide (a.1 ≤ b.1) = true)
    (hcheck : checkSegments listed = .ok ()) :
    openDir entries = .ok ⟨listed.map Prod.snd, 0, [], 0, false⟩ := by
  have hsegments : segments entries = listed := by
    rw [segments, hlisted]
    exact List.mergeSort_of_pairwise hsorted
  rw [openDir, hsegments, hcheck]
  rfl

/-- A segment with one record, and the record without the file header. -/
def sampleSegment : Bytes := encodeFileHeader 1 5 ++ sealedRecord crc32 sampleHeader [1, 2, 3]

def headlessSegment : Bytes := sealedRecord crc32 sampleHeader [1, 2, 3]

/-- A reader of some files that has come to none. -/
def ofFiles (files : List SegmentFile) : FileReader := ⟨files, 0, [], 0, false⟩

/-- A segment with one record and one of which a bit has changed, and an intact segment
behind it. -/
def damagedSegment : Bytes :=
  encodeFileHeader 0 5 ++ (sealedRecord crc32 sampleHeader [1, 2, 3] ++
    flipBit (sealedRecord crc32 sampleHeader [1, 2, 3]) 33 5)

def damagedFiles : List SegmentFile :=
  [⟨segmentName 0, some damagedSegment⟩, ⟨segmentName 1, some sampleSegment⟩]

def skippedFiles : List SegmentFile := [⟨segmentName 0, none⟩, ⟨segmentName 1, some sampleSegment⟩]

def headlessFiles : List SegmentFile := [⟨segmentName 0, some headlessSegment⟩]

/-- The reader that has come to the changed record. -/
def damagedReader : FileReader := ⟨damagedFiles, 1, damagedSegment, 67, false⟩

def damagedError : FileError := .read (.corrupt (segmentName 0) (.checksum 67))

theorem damagedFiles_open : openDir damagedFiles = .ok (ofFiles damagedFiles) :=
  openDir_listed
    (show _ = [(0, ⟨segmentName 0, some damagedSegment⟩), (1, ⟨segmentName 1, some sampleSegment⟩)] by
      decide +kernel)
    (by simp) (by decide +kernel)

theorem sampleFiles_open : openDir skippedFiles = .ok (ofFiles skippedFiles) ∧
    openDir headlessFiles = .ok (ofFiles headlessFiles) :=
  ⟨openDir_listed
      (show _ = [(0, ⟨segmentName 0, none⟩), (1, ⟨segmentName 1, some sampleSegment⟩)] by decide +kernel)
      (by simp) (by decide +kernel),
    openDir_listed (show _ = [(0, ⟨segmentName 0, some headlessSegment⟩)] by decide +kernel)
      (List.pairwise_singleton ..) (by decide +kernel)⟩

theorem skippedFiles_open : openDir skippedFiles = .ok (ofFiles skippedFiles) := sampleFiles_open.1

theorem headlessFiles_open : openDir headlessFiles = .ok (ofFiles headlessFiles) := sampleFiles_open.2

/-- The first record is returned, the changed one is an error, and every call behind it
is the same error from the same place. -/
theorem damagedFiles_calls :
    (ofFiles damagedFiles).nextRecord crc32 = (.ok (some sampleRecord), damagedReader) ∧
      damagedReader.nextRecord crc32 = (.error damagedError, damagedReader) ∧
        intact crc32 damagedFiles = [sampleRecord] := by
  decide +kernel

theorem damagedFiles_after : ∀ n, (ofFiles damagedFiles).after crc32 (n + 1) = damagedReader := by
  intro n
  induction n with
  | zero => rw [after_append, after, damagedFiles_calls.1]
  | succ n ih => rw [after_append, ih, damagedFiles_calls.2.1]

/-- A changed record with an intact segment behind it: the record before it is returned,
and the three calls behind the error are the same error again. -/
theorem reading_stops_at_damage_sample : StopsAtDamage crc32 (ofFiles damagedFiles) 5 ∧
    (ofFiles damagedFiles).returned crc32 5 = [sampleRecord] ∧
      intact crc32 damagedFiles = [sampleRecord] ∧
        ∀ k < 4, (((ofFiles damagedFiles).after crc32 (k + 1)).nextRecord crc32).1 =
          .error damagedError := by
  obtain ⟨hrecord, herror, hintact⟩ := damagedFiles_calls
  have hheader : decodeFileHeader damagedSegment = .ok 0 := decodeFileHeader_append 0 5 _
  refine ⟨reading_stops_at_damage crc32 damagedFiles_open 5 fun k _ => ?_, ?_, hintact, fun k _ => ?_⟩
  · cases k with
    | zero =>
        intro file hfile
        cases hfile
    | succ k =>
        rw [damagedFiles_after]
        intro file hfile
        cases hfile
        exact ⟨damagedSegment, 0, rfl, hheader⟩
  · simp [returned, returnedAt, herror, after, hrecord]
  · rw [damagedFiles_after, herror]

/-- Calls that go on behind damage. A segment that cannot be read is skipped by the call
after the error, which returns the record of the segment behind it. A segment whose file
header does not decode is read by the call after the error, from where the reader stood. -/
theorem reading_on_passes_damage :
    (openDir skippedFiles = .ok (ofFiles skippedFiles) ∧
      ¬ StopsAtDamage crc32 (ofFiles skippedFiles) 2) ∧
    (openDir headlessFiles = .ok (ofFiles headlessFiles) ∧
      ¬ StopsAtDamage crc32 (ofFiles headlessFiles) 2) := by
  have hskipped : (ofFiles skippedFiles).returned crc32 2 = [sampleRecord] := by decide +kernel
  have hheadless : (ofFiles headlessFiles).returned crc32 2 = [sampleRecord] := by decide +kernel
  have hnone : intact crc32 skippedFiles = [] := by decide +kernel
  have hnone' : intact crc32 headlessFiles = [] := by decide +kernel
  refine ⟨⟨skippedFiles_open, ?_⟩, headlessFiles_open, ?_⟩
  · rintro ⟨hfirst, -⟩
    rw [hskipped, ofFiles, hnone] at hfirst
    simp at hfirst
  · rintro ⟨hfirst, -⟩
    rw [hheadless, ofFiles, hnone'] at hfirst
    simp at hfirst

/-! ## §4 Refined -/

/-- A reader of files that can all be read. -/
def ofReader (r : JournalReader) : FileReader where
  files := (r.loaded ++ r.rest).map fun file => ⟨file.name, some file.data⟩
  nextFile := r.loaded.length
  data := r.data
  pos := r.pos
  tornTail := r.tornTail

/-- A result of a reader of files that can all be read. -/
def ofResult {α : Type} (res : Except ReadError α × JournalReader) : Except FileError α × FileReader :=
  (res.1.mapError .read, ofReader res.2)

theorem ofReader_load (r : JournalReader) {file : JournalFile} {rest : List JournalFile}
    (hrest : r.rest = file :: rest) :
    (ofReader r).loadNext = ofResult ((r.load file rest).1.map fun _ => true, (r.load file rest).2) := by
  have hfile : (ofReader r).files[(ofReader r).nextFile]? = some ⟨file.name, some file.data⟩ := by
    simp [ofReader, hrest]
  have hfiles : r.loaded ++ file :: rest = r.loaded ++ [file] ++ rest := by simp
  rw [loadNext, hfile]
  simp only [JournalReader.load]
  cases decodeFileHeader file.data with
  | error error => simp [ofResult, ofReader, Except.map, Except.mapError, hrest]
  | ok segment => simp [ofResult, ofReader, Except.map, Except.mapError, hrest]

theorem ofReader_skip : ∀ (rest : List JournalFile) (r : JournalReader) (rounds : Nat), r.rest = rest →
    rest.length < rounds → skipSegments rounds (ofReader r) = ofResult (r.skipSegments rest) := by
  intro rest
  induction rest with
  | nil =>
      intro r rounds hrest hrounds
      obtain ⟨rounds, rfl⟩ : ∃ n, rounds = n + 1 := ⟨rounds - 1, by omega⟩
      have hnone : (ofReader r).files[(ofReader r).nextFile]? = none := by simp [ofReader, hrest]
      rw [skipSegments, JournalReader.skipSegments, loadNext_none hnone]
      by_cases hpos : r.pos < r.data.length
      · simp [ofReader, ofResult, hpos, Except.mapError]
      · simp [ofReader, ofResult, hpos, Except.mapError]
  | cons file rest ih =>
      intro r rounds hrest hrounds
      obtain ⟨rounds, rfl⟩ : ∃ n, rounds = n + 1 := ⟨rounds - 1, by simp at hrounds; omega⟩
      rw [skipSegments, JournalReader.skipSegments]
      by_cases hpos : r.pos < r.data.length
      · simp [ofReader, ofResult, hpos, Except.mapError]
      · rw [if_neg hpos, if_neg (show ¬ (ofReader r).pos < (ofReader r).data.length from hpos),
          ofReader_load r hrest]
        have hkeeps : (r.load file rest).2.rest = rest := by
          unfold JournalReader.load
          split <;> rfl
        have hnext := ih (r.load file rest).2 rounds hkeeps (by simp at hrounds; omega)
        generalize r.load file rest = res at hnext ⊢
        obtain ⟨out, r'⟩ := res
        cases out with
        | error error => rfl
        | ok u => exact hnext

/-- Whether a reader has data only of a file that it has loaded. -/
def Started (r : JournalReader) : Prop := r.loaded = [] → r.data = []

theorem started_skip : ∀ (rest : List JournalFile) (r : JournalReader), Started r →
    Started (r.skipSegments rest).2 := by
  intro rest
  induction rest with
  | nil => intro r h; exact h
  | cons file rest ih =>
      intro r h
      have hload : Started (r.load file rest).2 := by
        unfold JournalReader.load
        split <;> simp [Started]
      rw [JournalReader.skipSegments]
      split_ifs with hpos
      · exact h
      · generalize r.load file rest = res at hload ⊢
        obtain ⟨out, r'⟩ := res
        cases out with
        | error error => exact hload
        | ok u => exact ih r' hload

theorem skip_inside : ∀ (rest : List JournalFile) (r : JournalReader),
    (r.skipSegments rest).1 = .ok true →
      (r.skipSegments rest).2.pos < (r.skipSegments rest).2.data.length := by
  intro rest
  induction rest with
  | nil =>
      intro r h
      simpa [JournalReader.skipSegments] using h
  | cons file rest ih =>
      intro r h
      rw [JournalReader.skipSegments] at h ⊢
      split_ifs at h ⊢ with hpos
      · exact hpos
      · generalize r.load file rest = res at h ⊢
        obtain ⟨out, r'⟩ := res
        cases out with
        | error error => cases h
        | ok u => exact ih r' h

theorem ofReader_name {r : JournalReader} (h : r.loaded ≠ []) :
    (ofReader r).currentName = r.currentName := by
  obtain ⟨front, last, hloaded⟩ := List.eq_nil_or_concat r.loaded |>.resolve_left h
  simp [ofReader, currentName, JournalReader.currentName, hloaded]

theorem ofReader_recordHere {r : JournalReader} (h : r.loaded ≠ []) :
    (ofReader r).recordHere crc = ofResult (r.recordHere crc) := by
  have hname := ofReader_name h
  have hlater : (ofReader r).nextFile < (ofReader r).files.length ↔ r.rest ≠ [] := by
    simp [ofReader, List.length_pos_iff]
  unfold recordHere JournalReader.recordHere
  have hdata : (ofReader r).data = r.data := rfl
  have hpos : (ofReader r).pos = r.pos := rfl
  rw [hdata, hpos, hname]
  cases decodeRecord crc (getFrom r.data r.pos) r.pos with
  | error error => rfl
  | ok decoded =>
      cases decoded with
      | record header len => rfl
      | incomplete =>
          by_cases hrest : r.rest ≠ []
          · simp only [if_pos hrest, if_pos (hlater.mpr hrest)]
            rfl
          · simp only [if_neg hrest, if_neg (fun hlt => hrest (hlater.mp hlt))]
            rfl

/-- Where every file can be read, this reader is the one of journals that were written. -/
theorem nextRecord_ofReader {r : JournalReader} (h : Started r) :
    (ofReader r).nextRecord crc = ofResult (r.nextRecord crc) := by
  have hfiles : (ofReader r).files.length = r.loaded.length + r.rest.length := by simp [ofReader]
  have hrounds : r.rest.length < (ofReader r).files.length + 1 := by omega
  have hstarted := started_skip r.rest r h
  have hinside := skip_inside r.rest r
  rw [nextRecord, JournalReader.nextRecord, ofReader_skip r.rest r _ rfl hrounds]
  generalize r.skipSegments r.rest = res at hstarted hinside ⊢
  obtain ⟨out, r'⟩ := res
  cases out with
  | error error => rfl
  | ok more =>
      cases more with
      | false => rfl
      | true =>
          have hloaded : r'.loaded ≠ [] := by
            intro hnone
            have hpos := hinside rfl
            simp only at hpos hstarted
            rw [hstarted hnone] at hpos
            exact absurd hpos (Nat.not_lt_zero _)
          exact ofReader_recordHere hloaded

end FileReader

end Bowst.Journal
