/-
Bowst.Journal.JournalTheorems — reading back what runs wrote.

The reader goes over the files of a journal's segments in the order of their
numbers, whatever order the directory lists them in. It returns the records of
every segment up to the first thing that is not a record, and what that is decides
how reading ends: nothing, a torn record in the last segment, a torn record in an
earlier one, or a file header that is cut off.

  §1 Calls    — the results of calling `next_record`.
  §2 Listing  — the segments of a directory.
  §3 Segments — the records of one segment, and of all.
  §4 Runs     — reading after clean runs.
  §5 Crashes  — reading after a crash, and after runs that followed one.
-/
import Bowst.Journal.SegmentTheorems
import Bowst.Lib.SortedKeys

namespace Bowst.Journal

open Bowst.Lib
open Bowst.Core (Bytes u64Max)

namespace JournalReader

variable (crc : Bytes → UInt32)

/-! ## §1 Calls -/

/-- The results of `n` calls of `next_record`, and the reader after them. -/
def calls : Nat → JournalReader → List (Except ReadError (Option Record)) × JournalReader
  | 0, r => ([], r)
  | n + 1, r =>
      let (out, r) := r.nextRecord crc
      let (outs, r) := calls n r
      (out :: outs, r)

/-- Fewer calls return the first of the results. -/
theorem calls_take : ∀ {m n : Nat} (r : JournalReader), m ≤ n →
    (r.calls crc m).1 = (r.calls crc n).1.take m := by
  intro m
  induction m with
  | zero => intro n r _; rfl
  | succ m ih =>
      intro n r hle
      cases n with
      | zero => omega
      | succ n =>
          have htail := ih (r.nextRecord crc).2 (Nat.le_of_succ_le_succ hle)
          simp only [calls, List.take_succ_cons, htail]

/-- A reader that returns some records one after the other and then goes on like
another one. -/
inductive Reads : JournalReader → List Record → JournalReader → Prop
  | same {r r' : JournalReader} (h : r.nextRecord crc = r'.nextRecord crc) : Reads r [] r'
  | record {r r' r'' : JournalReader} {record : Record} {records : List Record}
      (h : r.nextRecord crc = (.ok (some record), r')) (hrest : Reads r' records r'') :
      Reads r (record :: records) r''

variable {crc} {r r' r'' : JournalReader} {xs ys : List Record}

theorem Reads.trans (h : Reads crc r xs r') (h' : Reads crc r' ys r'') :
    Reads crc r (xs ++ ys) r'' := by
  induction h with
  | same heq =>
      cases h' with
      | same heq' => exact .same (heq.trans heq')
      | record heq' hrest => exact .record (heq.trans heq') hrest
  | record heq _ ih => exact .record heq (ih h')

/-- Reading some records, and one call more. -/
theorem Reads.calls_eq {out : Except ReadError (Option Record)} (h : Reads crc r xs r')
    (hlast : r'.nextRecord crc = (out, r'')) :
    r.calls crc (xs.length + 1) = (xs.map (fun record => .ok (some record)) ++ [out], r'') := by
  induction h with
  | same heq => simp [calls, heq, hlast]
  | record heq _ ih =>
      rw [List.length_cons, calls]
      simp only [heq, ih hlast]
      rfl

/-! ## §2 Listing -/

theorem checkSegments_numbered : ∀ (files : List JournalFile) (index : Nat),
    index + files.length ≤ u32Max + 1 → checkSegments (numbered index files) = .ok () := by
  intro files
  induction files with
  | nil => intro index _; rfl
  | cons file rest ih =>
      intro index hle
      cases rest with
      | nil => rfl
      | cons file' rest =>
          simp only [List.length_cons] at hle
          have hnext : min (index + 1) u32Max = index + 1 := Nat.min_eq_left (by omega)
          have htail := ih (index + 1) (by simp only [List.length_cons]; omega)
          simp only [numbered, checkSegments, hnext, ne_eq, not_true_eq_false, if_false]
          exact htail

/-- The segments of a journal's directory, listed in any order. -/
theorem segments_eq {dir entries files : List JournalFile} (hdir : JournalDir dir files)
    (hperm : entries.Perm dir) : segments entries = numbered 0 files := by
  have hascending : Ascending Prod.fst (numbered 0 files) := by
    rw [Ascending, ← List.pairwise_map (f := Prod.fst) (R := (· < ·)), numbered_fst]
    exact List.pairwise_lt_range'
  have hsorted : (segments entries).Pairwise fun a b => a.1 ≤ b.1 := by
    have hmerge : (segments entries).Pairwise fun a b => decide (a.1 ≤ b.1) = true :=
      List.pairwise_mergeSort (by simp; omega) (by simp; omega) _
    simpa using hmerge
  have hsame : (segments entries).Perm (numbered 0 files) := by
    rw [← hdir.filterMap_eq]
    exact (List.mergeSort_perm _ _).trans (hperm.filterMap _)
  refine List.Perm.eq_of_pairwise ?_ hsorted (hascending.imp le_of_lt) hsame
  intro a b ha hb hab hba
  exact hascending.eq_of_key (hsame.mem_iff.mp ha) hb (le_antisymm hab hba)

/-- Opening a journal's directory. -/
theorem openDir_eq {dir entries files : List JournalFile} (hdir : JournalDir dir files)
    (hperm : entries.Perm dir) : openDir entries = .ok ⟨[], files, [], 0, false⟩ := by
  have hcheck : checkSegments (numbered 0 files) = .ok () :=
    checkSegments_numbered files 0 (by have := hdir.count; omega)
  rw [openDir, segments_eq hdir hperm, hcheck, numbered_snd]
  rfl

/-! ## §3 Segments -/

/-- The next segment is loaded when the last one has been read. -/
theorem nextRecord_load {file : JournalFile} {rest : List JournalFile} {segment : Nat}
    (hend : r.data.length ≤ r.pos) (hrest : r.rest = file :: rest)
    (hheader : decodeFileHeader file.data = .ok segment) :
    r.nextRecord crc =
      nextRecord crc ⟨r.loaded ++ [file], rest, file.data, fileHeaderLen, r.tornTail⟩ := by
  rw [nextRecord, nextRecord, hrest]
  rw [skipSegments, if_neg (by omega), load]
  simp only [hheader]

/-- A file whose header is cut off ends reading. -/
theorem nextRecord_short {file : JournalFile} {rest : List JournalFile}
    (hend : r.data.length ≤ r.pos) (hrest : r.rest = file :: rest)
    (hshort : file.data.length < fileHeaderLen) :
    r.nextRecord crc = (.error (.corrupt file.name .badFileHeader),
      ⟨r.loaded ++ [file], rest, file.data, r.pos, r.tornTail⟩) := by
  rw [nextRecord, hrest, skipSegments, if_neg (by omega), load]
  simp only [decodeFileHeader_short hshort]

/-- The end of the last segment. -/
theorem nextRecord_end (hend : r.data.length ≤ r.pos) (hrest : r.rest = []) :
    r.nextRecord crc = (.ok none, r) := by
  rw [nextRecord, hrest, skipSegments]
  simp [Nat.not_lt.mpr hend]

/-- Inside a segment. -/
theorem nextRecord_here (hpos : r.pos < r.data.length) : r.nextRecord crc = r.recordHere crc := by
  have hskip : r.skipSegments r.rest = (.ok true, r) := by
    cases r.rest with
    | nil => simp [skipSegments, hpos]
    | cons file rest => simp [skipSegments, hpos]
  rw [nextRecord, hskip]

theorem getFrom_at {front back : Bytes} {pos : Nat} (hpos : pos = front.length) :
    getFrom (front ++ back) pos = back := by
  subst hpos
  rw [getFrom, if_pos (by simp), List.drop_left]

/-- A record at a position. -/
theorem record_at {data front back : Bytes} {pos : Nat} {record : Record} (hfits : record.Fits)
    (hdata : data = front ++ (record.bytes crc ++ back)) (hpos : pos = front.length) :
    decodeRecord crc (getFrom data pos) pos = .ok (.record record.header record.size) ∧
      slice data (pos + recordHeaderLen) (record.size - recordHeaderLen) = record.payload := by
  refine ⟨?_, ?_⟩
  · rw [hdata, getFrom_at hpos]
    exact decodeRecord_sealed crc record.header hfits back pos
  · obtain ⟨head, hhead, hbytes⟩ := sealedRecord_payload crc record.header record.payload
    have hpieces : data = (front ++ head) ++ (record.payload ++ back) := by
      rw [hdata, Record.bytes, hbytes]
      simp
    have hat : pos + recordHeaderLen = (front ++ head).length := by
      rw [List.length_append, hpos, hhead]
    rw [hpieces, hat, Record.size, Nat.add_sub_cancel_left, slice_append_length]

/-- A record in a segment. -/
theorem nextRecord_record {front back : Bytes} {record : Record} (hfits : record.Fits)
    (hdata : r.data = front ++ (record.bytes crc ++ back)) (hpos : r.pos = front.length) :
    r.nextRecord crc = (.ok (some record), { r with pos := r.pos + record.size }) := by
  have hlen : (record.bytes crc).length = record.size := record.length_bytes crc
  have hsize : 0 < record.size := by simp [Record.size, recordHeaderLen]
  have hin : r.pos < r.data.length := by
    rw [hdata, hpos]
    simp [hlen]
    omega
  obtain ⟨hdecode, hpayload⟩ := record_at hfits hdata hpos
  rw [nextRecord_here hin, recordHere, hdecode]
  simp only [hpayload]

/-- The records of a segment. -/
theorem reads_records : ∀ (records : List Record) (r : JournalReader) (front back : Bytes),
    (∀ record ∈ records, record.Fits) → r.data = front ++ (recordBytes crc records ++ back) →
      r.pos = front.length → Reads crc r records { r with pos := r.pos + recordsSize records } := by
  intro records
  induction records with
  | nil => intro r front back _ _ _; exact .same rfl
  | cons record rest ih =>
      intro r front back hfits hdata hpos
      rw [recordBytes_cons, List.append_assoc] at hdata
      have hnext := nextRecord_record (hfits record (by simp)) hdata hpos
      have hrest := ih { r with pos := r.pos + record.size } (front ++ record.bytes crc) back
        (fun x hx => hfits x (by simp [hx])) (by simp [hdata]) (by simp [hpos])
      have hsize : r.pos + recordsSize (record :: rest) = r.pos + record.size + recordsSize rest := by
        simp [recordsSize, Nat.add_assoc]
      rw [hsize]
      exact .record hnext hrest

variable (crc) in
/-- Bytes that a cut inside a record leaves of it. -/
def Torn (bytes : Bytes) : Prop :=
  ∃ record cut, Record.Fits record ∧ cut < record.size ∧ bytes = (record.bytes crc).take cut

theorem Torn.incomplete {bytes : Bytes} (h : Torn crc bytes) (offset : Nat) :
    decodeRecord crc bytes offset = .ok .incomplete := by
  obtain ⟨record, cut, hfits, hcut, rfl⟩ := h
  rw [← record.length_bytes crc] at hcut
  exact decodeRecord_cut crc record.header hfits hcut offset

/-- The reader when it has returned the records of a segment. -/
def atTail (r : JournalReader) (crc : Bytes → UInt32) (img : SegmentImage) (index : Nat)
    (rest : List JournalFile) : JournalReader :=
  ⟨r.loaded ++ [img.file crc index], rest, img.data crc index, img.size, r.tornTail⟩

/-- Reading a segment. -/
theorem reads_segment {img : SegmentImage} {index : Nat} {rest : List JournalFile}
    (hfits : ∀ record ∈ img.records, record.Fits) (hend : r.data.length ≤ r.pos)
    (hrest : r.rest = img.file crc index :: rest) :
    Reads crc r img.records (r.atTail crc img index rest) := by
  have hload : r.nextRecord crc = _ := nextRecord_load hend hrest
    (decodeFileHeader_append index img.created (recordBytes crc img.records ++ img.torn))
  have hrecords := reads_records img.records
    ⟨r.loaded ++ [img.file crc index], rest, img.data crc index, fileHeaderLen, r.tornTail⟩
    (encodeFileHeader index img.created) img.torn hfits rfl (length_encodeFileHeader ..).symm
  exact (Reads.same hload).trans hrecords

theorem length_data (crc : Bytes → UInt32) (img : SegmentImage) (index : Nat) :
    (img.data crc index).length = img.size + img.torn.length := by
  simp [SegmentImage.data, SegmentImage.size, Nat.add_assoc]

/-- Reading segments that end with their last record. -/
theorem reads_segments : ∀ (images : List SegmentImage) (index : Nat) (r : JournalReader)
    (tail : List JournalFile), (∀ img ∈ images, img.torn = [] ∧ ∀ record ∈ img.records, record.Fits) →
    r.data.length ≤ r.pos → r.rest = imageFiles crc index images ++ tail →
    ∃ r', Reads crc r (images.flatMap SegmentImage.records) r' ∧ r'.data.length ≤ r'.pos ∧
      r'.rest = tail ∧ r'.tornTail = r.tornTail := by
  intro images
  induction images with
  | nil =>
      intro index r tail _ hend hrest
      exact ⟨r, .same rfl, hend, hrest, rfl⟩
  | cons img images ih =>
      intro index r tail hclean hend hrest
      obtain ⟨htorn, hfits⟩ := hclean img (by simp)
      have hsegment : Reads crc r img.records _ := reads_segment hfits hend hrest
      have hend' : (r.atTail crc img index (imageFiles crc (index + 1) images ++ tail)).data.length ≤
          (r.atTail crc img index (imageFiles crc (index + 1) images ++ tail)).pos := by
        simp [atTail, length_data, htorn]
      obtain ⟨r', hreads, hrest'⟩ :=
        ih (index + 1) _ tail (fun x hx => hclean x (by simp [hx])) hend' rfl
      exact ⟨r', hsegment.trans hreads, hrest'⟩

/-- The torn record at the end of a segment. -/
theorem nextRecord_torn {img : SegmentImage} {index : Nat} {rest : List JournalFile}
    (htorn : Torn crc img.torn) (hne : img.torn ≠ []) :
    (r.atTail crc img index rest).nextRecord crc =
      if rest ≠ [] then
        (.error (.truncated (segmentName index) img.size), r.atTail crc img index rest)
      else
        (.ok none, { r.atTail crc img index rest with
          tornTail := true, pos := (img.data crc index).length }) := by
  have hpos : (r.atTail crc img index rest).pos < (r.atTail crc img index rest).data.length := by
    have hlen := List.length_pos_iff.mpr hne
    simp only [atTail, length_data]
    omega
  have hfrom : getFrom (img.data crc index) img.size = img.torn := by
    have hpieces : img.data crc index =
        (encodeFileHeader index img.created ++ recordBytes crc img.records) ++ img.torn := by
      simp [SegmentImage.data]
    rw [hpieces]
    exact getFrom_at (by simp [SegmentImage.size])
  rw [nextRecord_here hpos, recordHere]
  simp only [atTail, hfrom, htorn.incomplete]
  simp [currentName, SegmentImage.file]

end JournalReader

/-! ## §4 Runs -/

section Runs

variable (crc : Bytes → UInt32)

/-- What reading a directory returns, in whatever order it is listed: the records,
then `out`, and what `torn_tail` says then. -/
def ReadsTo (dir : List JournalFile) (records : List Record)
    (out : Except ReadError (Option Record)) (torn : Bool) : Prop :=
  ∀ entries, entries.Perm dir → ∃ r r', JournalReader.openDir entries = .ok r ∧
    r.calls crc (records.length + 1) =
      (records.map (fun record => .ok (some record)) ++ [out], r') ∧ r'.tornTail = torn

variable {crc} in
/-- Reading a directory has one result. -/
theorem ReadsTo.take_eq {dir : List JournalFile} {xs ys : List Record}
    {out out' : Except ReadError (Option Record)} {torn torn' : Bool}
    (h : ReadsTo crc dir xs out torn) (h' : ReadsTo crc dir ys out' torn')
    (hle : xs.length ≤ ys.length) :
    xs.map (fun record => Except.ok (some record)) ++ [out] =
      (ys.map (fun record => Except.ok (some record)) ++ [out']).take (xs.length + 1) := by
  obtain ⟨r, r₁, hopen, hcalls, -⟩ := h dir (List.Perm.refl dir)
  obtain ⟨r', r₁', hopen', hcalls', -⟩ := h' dir (List.Perm.refl dir)
  obtain rfl : r = r' := Except.ok.inj (hopen.symm.trans hopen')
  have htake := r.calls_take crc (show xs.length + 1 ≤ ys.length + 1 by omega)
  rw [hcalls, hcalls'] at htake
  exact htake

/-- What is left of a directory when its last file is cut off. -/
def cutLast (dir : List JournalFile) (cut : Nat) : List JournalFile :=
  dir.modify (dir.length - 1) fun file => { file with data := file.data.take cut }

/-- What a run leaves: all it wrote, or what a crash left of its last segment. -/
def leave (dir : List JournalFile) : Option Nat → List JournalFile
  | none => dir
  | some cut => cutLast dir cut

/-- Runs over a directory, one after the other: the directory they leave, and
their errors. -/
def afterRuns : List JournalFile → List (JournalRun × Option Nat) →
    List JournalFile × List JournalError
  | dir, [] => (dir, [])
  | dir, (run, crash) :: rest =>
      let (dir, error) := run.finish crc dir
      let (dir, errors) := afterRuns (leave dir crash) rest
      (dir, error.toList ++ errors)

variable {crc}

open JournalReader

/-- Reading a journal up to its last file. -/
theorem reads_closed {dir entries tail : List JournalFile} {images : List SegmentImage}
    (hdir : JournalDir dir (imageFiles crc 0 images ++ tail)) (hperm : entries.Perm dir)
    (hclean : ∀ img ∈ images, img.torn = [] ∧ ∀ record ∈ img.records, record.Fits) :
    ∃ r r', openDir entries = .ok r ∧ Reads crc r (images.flatMap SegmentImage.records) r' ∧
      r'.data.length ≤ r'.pos ∧ r'.rest = tail ∧ r'.tornTail = false := by
  obtain ⟨r', hreads, hend, hrest, htorn⟩ := reads_segments images 0
    ⟨[], imageFiles crc 0 images ++ tail, [], 0, false⟩ tail hclean (Nat.le_refl _) rfl
  exact ⟨_, r', openDir_eq hdir hperm, hreads, hend, hrest, htorn⟩

/-- Reading a journal whose segments end with their last record. -/
theorem readsTo_clean {dir : List JournalFile} {images : List SegmentImage}
    (hdir : JournalDir dir (imageFiles crc 0 images))
    (hclean : ∀ img ∈ images, img.torn = [] ∧ ∀ record ∈ img.records, record.Fits) :
    ReadsTo crc dir (images.flatMap SegmentImage.records) (.ok none) false := by
  intro entries hperm
  rw [← List.append_nil (imageFiles crc 0 images)] at hdir
  obtain ⟨r, r', hopen, hreads, hend, hrest, htorn⟩ := reads_closed hdir hperm hclean
  exact ⟨r, r', hopen, hreads.calls_eq (nextRecord_end hend hrest), htorn⟩

/-- Reading a journal whose last file is cut off in its header. -/
theorem readsTo_short {dir : List JournalFile} {images : List SegmentImage} {file : JournalFile}
    (hdir : JournalDir dir (imageFiles crc 0 images ++ [file]))
    (hclean : ∀ img ∈ images, img.torn = [] ∧ ∀ record ∈ img.records, record.Fits)
    (hshort : file.data.length < fileHeaderLen) :
    ReadsTo crc dir (images.flatMap SegmentImage.records)
      (.error (.corrupt file.name .badFileHeader)) false := by
  intro entries hperm
  obtain ⟨r, r', hopen, hreads, hend, hrest, htorn⟩ := reads_closed hdir hperm hclean
  exact ⟨r, _, hopen, hreads.calls_eq (nextRecord_short hend hrest hshort), htorn⟩

/-- Reading a journal with a torn record at the end of a segment. -/
theorem readsTo_torn {dir later : List JournalFile} {images : List SegmentImage}
    {img : SegmentImage}
    (hdir : JournalDir dir (imageFiles crc 0 (images ++ [img]) ++ later))
    (hclean : ∀ img ∈ images, img.torn = [] ∧ ∀ record ∈ img.records, record.Fits)
    (hfits : ∀ record ∈ img.records, record.Fits) (htorn : Torn crc img.torn)
    (hne : img.torn ≠ []) :
    (later = [] → ReadsTo crc dir ((images ++ [img]).flatMap SegmentImage.records) (.ok none) true) ∧
    (later ≠ [] → ReadsTo crc dir ((images ++ [img]).flatMap SegmentImage.records)
      (.error (.truncated (segmentName images.length) img.size)) false) := by
  rw [imageFiles_append, Nat.zero_add, List.append_assoc] at hdir
  have hrecords : (images ++ [img]).flatMap SegmentImage.records =
      images.flatMap SegmentImage.records ++ img.records := by simp
  rw [hrecords]
  constructor
  · rintro rfl entries hperm
    obtain ⟨r, r', hopen, hreads, hend, hrest, hfalse⟩ := reads_closed hdir hperm hclean
    have hlast : (r'.atTail crc img images.length []).nextRecord crc = _ :=
      nextRecord_torn htorn hne
    rw [if_neg (by simp)] at hlast
    exact ⟨r, _, hopen, (hreads.trans (reads_segment hfits hend hrest)).calls_eq hlast, rfl⟩
  · intro hlater entries hperm
    obtain ⟨r, r', hopen, hreads, hend, hrest, hfalse⟩ := reads_closed hdir hperm hclean
    have hlast : (r'.atTail crc img images.length later).nextRecord crc = _ :=
      nextRecord_torn htorn hne
    rw [if_pos hlater] at hlast
    exact ⟨r, _, hopen, (hreads.trans (reads_segment hfits hend hrest)).calls_eq hlast, hfalse⟩

/-! ## §5 Crashes -/

/-- The records that fit into some bytes. -/
def fitting : Nat → List Record → List Record
  | _, [] => []
  | room, record :: rest =>
      if record.size ≤ room then record :: fitting (room - record.size) rest else []

/-- They are the first ones. -/
theorem fitting_first : ∀ (records : List Record) (room : Nat), fitting room records <+: records := by
  intro records
  induction records with
  | nil => intro room; simp [fitting]
  | cons record rest ih =>
      intro room
      rw [fitting]
      split_ifs with hfit
      · exact (List.prefix_cons_inj record).mpr (ih _)
      · exact List.nil_prefix

theorem fitting_subset (records : List Record) (room : Nat) : fitting room records ⊆ records :=
  (fitting_first records room).subset

theorem recordsSize_cons (record : Record) (rest : List Record) :
    recordsSize (record :: rest) = record.size + recordsSize rest := by
  simp [recordsSize]

/-- A record takes room. -/
theorem Record.size_pos (record : Record) : 0 < record.size := by
  simp [Record.size, recordHeaderLen]

/-- What a cut leaves of some records: those that fit, and a part of the next one
unless the cut is at the end of a record. -/
theorem take_recordBytes (crc : Bytes → UInt32) : ∀ (records : List Record) (room : Nat),
    (∀ record ∈ records, record.Fits) → room ≤ recordsSize records →
    ∃ torn, (recordBytes crc records).take room = recordBytes crc (fitting room records) ++ torn ∧
      (torn ≠ [] → Torn crc torn) ∧ (torn = [] ↔ ∃ n, room = recordsSize (records.take n)) := by
  intro records
  induction records with
  | nil =>
      intro room _ hroom
      have hzero : room = 0 := Nat.le_zero.mp hroom
      exact ⟨[], by simp [fitting], by simp, by simp [hzero, recordsSize]⟩
  | cons record rest ih =>
      intro room hfits hroom
      rw [recordsSize_cons] at hroom
      have hlen := record.length_bytes crc
      by_cases hfit : record.size ≤ room
      · obtain ⟨torn, htake, htorn, hiff⟩ := ih (room - record.size)
          (fun x hx => hfits x (by simp [hx])) (by omega)
        refine ⟨torn, ?_, htorn, ?_⟩
        · rw [fitting, if_pos hfit, recordBytes_cons, recordBytes_cons, List.append_assoc, ← htake,
            List.take_append, hlen, List.take_of_length_le (by omega)]
        · rw [hiff]
          constructor
          · rintro ⟨n, hn⟩
            exact ⟨n + 1, by rw [List.take_succ_cons, recordsSize_cons]; omega⟩
          · rintro ⟨n, hn⟩
            cases n with
            | zero =>
                have hpos := record.size_pos
                simp [recordsSize] at hn
                omega
            | succ n =>
                rw [List.take_succ_cons, recordsSize_cons] at hn
                exact ⟨n, by omega⟩
      · refine ⟨(record.bytes crc).take room, ?_, ?_, ?_⟩
        · rw [fitting, if_neg hfit, recordBytes_cons, List.take_append_of_le_length (by omega)]
          rfl
        · intro _
          exact ⟨record, room, hfits record (by simp), by omega, rfl⟩
        · constructor
          · intro hnil
            have hzero : room = 0 := by
              have hcut := congrArg List.length hnil
              simp [hlen] at hcut
              omega
            exact ⟨0, by simp [recordsSize, hzero]⟩
          · rintro ⟨n, hn⟩
            cases n with
            | zero => simp [hn, recordsSize]
            | succ n =>
                rw [List.take_succ_cons, recordsSize_cons] at hn
                omega

/-- A segment cut off behind its file header. -/
def SegmentImage.cutAt (crc : Bytes → UInt32) (cut : Nat) (img : SegmentImage) : SegmentImage :=
  let room := cut - fileHeaderLen
  { img with
    records := fitting room img.records
    torn := ((recordBytes crc img.records).take room).drop (recordsSize (fitting room img.records)) }

theorem SegmentImage.cutAt_spec (crc : Bytes → UInt32) {img : SegmentImage} {cut : Nat} (htorn : img.torn = [])
    (hfits : ∀ record ∈ img.records, record.Fits) (hheader : fileHeaderLen ≤ cut)
    (hcut : cut ≤ img.size) :
    (∀ index, (img.cutAt crc cut).data crc index = (img.data crc index).take cut) ∧
      ((img.cutAt crc cut).torn ≠ [] → Torn crc (img.cutAt crc cut).torn) ∧
      ((img.cutAt crc cut).torn = [] ↔
        ∃ n, cut = fileHeaderLen + recordsSize (img.records.take n)) := by
  obtain ⟨torn, htake, htorn', hiff⟩ := take_recordBytes crc img.records (cut - fileHeaderLen) hfits
    (by rw [SegmentImage.size] at hcut; omega)
  have heq : (img.cutAt crc cut).torn = torn := by
    rw [SegmentImage.cutAt, htake, ← length_recordBytes crc, List.drop_left]
  refine ⟨?_, by rw [heq]; exact htorn', ?_⟩
  · intro index
    have hhead := length_encodeFileHeader index img.created
    simp only [SegmentImage.data, heq, htorn, List.append_nil]
    rw [List.take_append, hhead, List.take_of_length_le (by omega), htake]
    rfl
  · rw [heq, hiff]
    constructor
    · rintro ⟨n, hn⟩
      exact ⟨n, by omega⟩
    · rintro ⟨n, hn⟩
      exact ⟨n, by omega⟩

theorem cutLast_append (dir : List JournalFile) (file : JournalFile) (cut : Nat) :
    cutLast (dir ++ [file]) cut = dir ++ [{ file with data := file.data.take cut }] := by
  rw [cutLast, List.length_append, List.length_singleton, Nat.add_sub_cancel]
  exact modify_length_append dir [] file _

/-- A cut strictly inside a record of a run's last segment. -/
def JournalRun.CutsRecord (run : JournalRun) (cut : Nat) : Prop :=
  ∃ closed last n, run.images = closed ++ [last] ∧ n < last.records.length ∧
    fileHeaderLen + recordsSize (last.records.take n) < cut ∧
    cut < fileHeaderLen + recordsSize (last.records.take (n + 1))

/-- The records of a run that are complete on disk. -/
def completeRecords : JournalRun × Option Nat → List Record
  | (run, none) => run.records
  | (run, some cut) => run.images.dropLast.flatMap SegmentImage.records ++
      fitting (cut - fileHeaderLen) ((run.images.getLast?.map SegmentImage.records).getD [])

theorem recordsSize_take_mono (records : List Record) {m n : Nat} (h : m ≤ n) :
    recordsSize (records.take m) ≤ recordsSize (records.take n) := by
  obtain ⟨k, rfl⟩ := Nat.exists_eq_add_of_le h
  rw [List.take_add, recordsSize, recordsSize, List.map_append, List.sum_append]
  omega

/-- A cut inside a record leaves a torn record. -/
theorem JournalRun.CutsRecord.torn {run : JournalRun} {cut : Nat} (h : run.CutsRecord cut)
    (hfits : run.Fits) (crc : Bytes → UInt32) : ∃ closed last, run.images = closed ++ [last] ∧
      (∀ index, (last.cutAt crc cut).data crc index = (last.data crc index).take cut) ∧
      Torn crc (last.cutAt crc cut).torn ∧ (last.cutAt crc cut).torn ≠ [] := by
  obtain ⟨closed, last, n, himages, hn, hlow, hhigh⟩ := h
  obtain ⟨htorn, hlast⟩ := JournalRun.images_clean hfits last (by simp [himages])
  have htotal : recordsSize (last.records.take (n + 1)) ≤ recordsSize last.records := by
    have hmono := recordsSize_take_mono last.records (m := n + 1) (n := last.records.length) hn
    rwa [List.take_length] at hmono
  obtain ⟨hdata, htorn', hboundary⟩ := SegmentImage.cutAt_spec crc htorn hlast (by omega)
    (show cut ≤ last.size by rw [SegmentImage.size]; omega)
  have hne : (last.cutAt crc cut).torn ≠ [] := by
    rw [Ne, hboundary]
    rintro ⟨m, hm⟩
    rcases Nat.lt_or_ge n m with hlt | hge
    · have hmono := recordsSize_take_mono last.records (show n + 1 ≤ m from hlt)
      omega
    · have hmono := recordsSize_take_mono last.records hge
      omega
  exact ⟨closed, last, himages, hdata, htorn' hne, hne⟩

/-- The segments that a run leaves. -/
def leftImages (crc : Bytes → UInt32) : JournalRun × Option Nat → List SegmentImage
  | (run, none) => run.images
  | (run, some cut) => run.images.dropLast ++ (run.images.getLast?.map (·.cutAt crc cut)).toList

theorem leftImages_cut (crc : Bytes → UInt32) {run : JournalRun} {closed : List SegmentImage}
    {last : SegmentImage} (himages : run.images = closed ++ [last]) (cut : Nat) :
    leftImages crc (run, some cut) = closed ++ [last.cutAt crc cut] := by
  simp [leftImages, himages]

theorem leftImages_records (crc : Bytes → UInt32) (left : JournalRun × Option Nat) :
    (leftImages crc left).flatMap SegmentImage.records = completeRecords left := by
  obtain ⟨run, crash⟩ := left
  cases crash with
  | none => exact run.images_records
  | some cut =>
      simp only [leftImages, completeRecords, List.flatMap_append]
      cases run.images.getLast? with
      | none => simp [fitting]
      | some last => simp [SegmentImage.cutAt]

/-- A run that finished cleanly, or crashed inside a record. -/
def EndedInRecord (left : JournalRun × Option Nat) : Prop :=
  left.1.Fits ∧ ∀ cut, left.2 = some cut → left.1.CutsRecord cut

theorem leave_imageFiles (crc : Bytes → UInt32) {left : JournalRun × Option Nat}
    (hended : EndedInRecord left) (dir : List JournalFile) (index : Nat) :
    leave (dir ++ imageFiles crc index left.1.images) left.2 =
      dir ++ imageFiles crc index (leftImages crc left) := by
  obtain ⟨run, crash⟩ := left
  cases crash with
  | none => rfl
  | some cut =>
      obtain ⟨closed, last, himages, hdata, -, -⟩ := (hended.2 cut rfl).torn hended.1 crc
      rw [leftImages_cut crc himages, imageFiles_append, leave, himages, imageFiles_append,
        ← List.append_assoc]
      simp only [imageFiles]
      rw [cutLast_append, List.append_assoc, SegmentImage.file, SegmentImage.file, hdata]

theorem length_leftImages (crc : Bytes → UInt32) {left : JournalRun × Option Nat}
    (hended : EndedInRecord left) : (leftImages crc left).length = left.1.images.length := by
  obtain ⟨run, crash⟩ := left
  cases crash with
  | none => rfl
  | some cut =>
      obtain ⟨closed, last, himages, -⟩ := (hended.2 cut rfl).torn hended.1 crc
      rw [leftImages_cut crc himages, himages]
      simp

/-- Runs over a journal leave the journal with their segments behind it, unless
the numbers run out, which is an error. -/
theorem afterRuns_spec (crc : Bytes → UInt32) : ∀ (runs : List (JournalRun × Option Nat))
    (dir : List JournalFile) (images : List SegmentImage),
    JournalDir dir (imageFiles crc 0 images) → (∀ left ∈ runs, EndedInRecord left) →
    ((afterRuns crc dir runs).2 = [] ↔
      images.length + (runs.flatMap (leftImages crc)).length ≤ u32Max + 1) ∧
    ((afterRuns crc dir runs).2 = [] →
      JournalDir (afterRuns crc dir runs).1
        (imageFiles crc 0 (images ++ runs.flatMap (leftImages crc)))) := by
  intro runs
  induction runs with
  | nil =>
      intro dir images hdir _
      have hcount := hdir.count
      simp only [length_imageFiles] at hcount
      simp [afterRuns, hcount, hdir]
  | cons left rest ih =>
      intro dir images hdir hended
      obtain ⟨run, crash⟩ := left
      have hhead := hended (run, crash) (by simp)
      have hlen := length_leftImages crc hhead
      obtain ⟨hfiles, herror⟩ := run.finish_spec hdir
      have hafter : afterRuns crc dir ((run, crash) :: rest) =
          ((afterRuns crc (leave (run.finish crc dir).1 crash) rest).1,
            (run.finish crc dir).2.toList ++
              (afterRuns crc (leave (run.finish crc dir).1 crash) rest).2) := rfl
      rw [hafter, List.flatMap_cons, List.length_append, hlen]
      by_cases hroom : images.length + run.images.length ≤ u32Max + 1
      · have hdir' : JournalDir (leave (run.finish crc dir).1 crash)
            (imageFiles crc 0 (images ++ leftImages crc (run, crash))) := by
          have hleave := leave_imageFiles crc hhead dir images.length
          rw [hfiles, List.take_of_length_le (by omega), hleave, imageFiles_append, Nat.zero_add]
          exact hdir.append (by simpa using named_imageFiles ..) (by simp [hlen]; omega)
        obtain ⟨hiff, hjournal⟩ := ih _ _ hdir' fun x hx => hended x (by simp [hx])
        rw [herror.mpr hroom]
        simp only [Option.toList_none, List.nil_append]
        rw [List.append_assoc] at hjournal
        rw [List.length_append, hlen, Nat.add_assoc] at hiff
        exact ⟨hiff, hjournal⟩
      · have hsome : (run.finish crc dir).2.toList ++
            (afterRuns crc (leave (run.finish crc dir).1 crash) rest).2 ≠ [] := by
          intro hnil
          have hnone := (List.append_eq_nil_iff.mp hnil).1
          exact hroom (herror.mp (Option.toList_eq_nil_iff.mp hnone))
        simp only [hsome, false_iff, false_implies, and_true]
        omega

/-- A directory without a journal. -/
theorem journalDir_nil (crc : Bytes → UInt32) {dir : List JournalFile}
    (hdir : ∀ file ∈ dir, segmentIndex file.name = none) :
    JournalDir dir (imageFiles crc 0 []) :=
  ⟨⟨dir, (List.append_nil dir).symm, hdir⟩, trivial, Nat.zero_le _⟩

section Crash

variable (crc : Bytes → UInt32) {dir : List JournalFile} {run : JournalRun}
  {closed : List SegmentImage} {last : SegmentImage} {cut : Nat}

theorem disk_clean (hfits : run.Fits) (hdisk : run.images.take (2 ^ 32) = closed ++ [last]) :
    ∀ img ∈ closed ++ [last], img.torn = [] ∧ ∀ record ∈ img.records, record.Fits := by
  intro img hmem
  rw [← hdisk] at hmem
  exact JournalRun.images_clean hfits img (List.mem_of_mem_take hmem)

theorem finish_disk (hdir : ∀ file ∈ dir, segmentIndex file.name = none)
    (hdisk : run.images.take (2 ^ 32) = closed ++ [last]) :
    (run.finish crc dir).1 = dir ++ imageFiles crc 0 (closed ++ [last]) := by
  rw [← hdisk]
  exact (run.finish_spec (journalDir_nil crc hdir)).1

/-- The journal of a run whose last segment is cut off. -/
theorem journalDir_cut (hdir : ∀ file ∈ dir, segmentIndex file.name = none)
    (hdisk : run.images.take (2 ^ 32) = closed ++ [last]) (cut : Nat) :
    JournalDir (cutLast (run.finish crc dir).1 cut)
      (imageFiles crc 0 closed ++
        [⟨segmentName closed.length, (last.data crc closed.length).take cut⟩]) := by
  have hcount : (closed ++ [last]).length ≤ u32Max + 1 := by
    rw [← hdisk, List.length_take]
    exact Nat.min_le_left ..
  have hcutLast : cutLast (run.finish crc dir).1 cut =
      dir ++ (imageFiles crc 0 closed ++
        [⟨segmentName closed.length, (last.data crc closed.length).take cut⟩]) := by
    rw [finish_disk crc hdir hdisk, imageFiles_append, Nat.zero_add, ← List.append_assoc]
    simp only [imageFiles]
    rw [cutLast_append, List.append_assoc]
    rfl
  rw [hcutLast]
  refine ⟨⟨dir, rfl, hdir⟩, (named_imageFiles crc 0 closed).append ?_, by simpa using hcount⟩
  simp [Named]

/-- The last segment cut behind its file header. -/
theorem readsTo_cut (hdir : ∀ file ∈ dir, segmentIndex file.name = none) (hfits : run.Fits)
    (hdisk : run.images.take (2 ^ 32) = closed ++ [last]) (hheader : fileHeaderLen ≤ cut)
    (hcut : cut ≤ last.size) : ∃ torn,
      ReadsTo crc (cutLast (run.finish crc dir).1 cut)
        (closed.flatMap SegmentImage.records ++ fitting (cut - fileHeaderLen) last.records)
        (.ok none) torn ∧
      (torn = true ↔ ¬ ∃ n, cut = fileHeaderLen + recordsSize (last.records.take n)) := by
  have hclean := disk_clean hfits hdisk
  have hclosed : ∀ img ∈ closed, img.torn = [] ∧ ∀ record ∈ img.records, record.Fits :=
    fun img hmem => hclean img (by simp [hmem])
  obtain ⟨htorn, hlast⟩ := hclean last (by simp)
  obtain ⟨hdata, htorn', hboundary⟩ := SegmentImage.cutAt_spec crc htorn hlast hheader hcut
  have hcutfits : ∀ record ∈ (last.cutAt crc cut).records, record.Fits :=
    fun record hmem => hlast record (fitting_subset _ _ hmem)
  have hjournal : JournalDir (cutLast (run.finish crc dir).1 cut)
      (imageFiles crc 0 (closed ++ [last.cutAt crc cut])) := by
    rw [imageFiles_append, Nat.zero_add]
    simp only [imageFiles, SegmentImage.file, hdata]
    exact journalDir_cut crc hdir hdisk cut
  have hrecords : (closed ++ [last.cutAt crc cut]).flatMap SegmentImage.records =
      closed.flatMap SegmentImage.records ++ fitting (cut - fileHeaderLen) last.records := by
    simp [SegmentImage.cutAt]
  rw [← hboundary, ← hrecords]
  by_cases hnil : (last.cutAt crc cut).torn = []
  · refine ⟨false, readsTo_clean hjournal ?_, by simp [hnil]⟩
    intro img hmem
    rcases List.mem_append.mp hmem with hmem | hmem
    · exact hclosed img hmem
    · rw [List.mem_singleton.mp hmem]
      exact ⟨hnil, hcutfits⟩
  · rw [← List.append_nil (imageFiles crc 0 _)] at hjournal
    exact ⟨true, (readsTo_torn hjournal hclosed hcutfits (htorn' hnil) hnil).1 rfl, by simp [hnil]⟩

/-- The last segment cut inside its file header. -/
theorem readsTo_cut_header (hdir : ∀ file ∈ dir, segmentIndex file.name = none) (hfits : run.Fits)
    (hdisk : run.images.take (2 ^ 32) = closed ++ [last]) (hcut : cut < fileHeaderLen) :
    ReadsTo crc (cutLast (run.finish crc dir).1 cut) (closed.flatMap SegmentImage.records)
      (.error (.corrupt (segmentName closed.length) .badFileHeader)) false := by
  refine readsTo_short (journalDir_cut crc hdir hdisk cut) ?_ (by simp; omega)
  exact fun img hmem => disk_clean hfits hdisk img (by simp [hmem])

end Crash

/-- A crash costs no more than the record being written. A run leaves the segments
it placed, as far as the numbers last. Cut its last segment anywhere behind the file
header: reading returns the records that are complete, and reports a torn record
unless the cut is at the end of the file header or of a record. Cut it inside the
file header: reading returns the records of the earlier segments and then reports
the header. -/
theorem crash_keeps_complete_records (crc : Bytes → UInt32) (dir : List JournalFile)
    (hdir : ∀ file ∈ dir, segmentIndex file.name = none) (run : JournalRun) (hfits : run.Fits)
    (closed : List SegmentImage) (last : SegmentImage)
    (hdisk : run.images.take (2 ^ 32) = closed ++ [last]) (cut : Nat) (hcut : cut ≤ last.size) :
    (run.finish crc dir).1 = dir ++ imageFiles crc 0 (closed ++ [last]) ∧
    (fileHeaderLen ≤ cut → ∃ torn,
      ReadsTo crc (cutLast (run.finish crc dir).1 cut)
        (closed.flatMap SegmentImage.records ++ fitting (cut - fileHeaderLen) last.records)
        (.ok none) torn ∧
      (torn = true ↔ ¬ ∃ n, cut = fileHeaderLen + recordsSize (last.records.take n))) ∧
    (cut < fileHeaderLen →
      ReadsTo crc (cutLast (run.finish crc dir).1 cut) (closed.flatMap SegmentImage.records)
        (.error (.corrupt (segmentName closed.length) .badFileHeader)) false) :=
  ⟨finish_disk crc hdir hdisk, fun hheader => readsTo_cut crc hdir hfits hdisk hheader hcut,
    fun hshort => readsTo_cut_header crc hdir hfits hdisk hshort⟩

/-- A record to try things on. -/
def sampleRecord : Record := ⟨sampleHeader, [1, 2, 3]⟩

/-- Two records, the second in a segment of its own. -/
def rotatedRun : JournalRun := ⟨33, 1, [(sampleRecord, 2), (sampleRecord, 3)]⟩

theorem rotatedRun_fits : rotatedRun.Fits := by
  intro record hmem
  have heq : record = sampleRecord := by simpa [rotatedRun, JournalRun.records] using hmem
  rw [heq, Record.Fits]
  decide

theorem rotatedRun_disk : rotatedRun.images.take (2 ^ 32) =
    [⟨1, [sampleRecord], []⟩] ++ [⟨3, [sampleRecord], []⟩] := rfl

theorem crash_keeps_complete_records_sample :
    ∃ torn, ReadsTo crc32 (cutLast (rotatedRun.finish crc32 []).1 40) [sampleRecord] (.ok none) torn := by
  obtain ⟨torn, hreads, -⟩ := (crash_keeps_complete_records crc32 [] (by simp) rotatedRun
    rotatedRun_fits _ _ rotatedRun_disk 40 (by decide)).2.1 (by decide)
  exact ⟨torn, hreads⟩

/-- The segment of the second record, cut inside its file header: the record before
it is complete, and reading ends with an error. -/
theorem rotated_header_cut_is_an_error :
    ¬ ∃ torn, ReadsTo crc32 (cutLast (rotatedRun.finish crc32 []).1 10) [sampleRecord] (.ok none)
      torn := by
  rintro ⟨torn, h⟩
  have herror : ReadsTo crc32 (cutLast (rotatedRun.finish crc32 []).1 10) [sampleRecord]
      (.error (.corrupt (segmentName 1) .badFileHeader)) false :=
    readsTo_cut_header crc32 (by simp) rotatedRun_fits rotatedRun_disk (by decide)
  simpa using h.take_eq herror le_rfl

/-- What runs wrote is read back. Runs over a directory, each with its own limit and
finishing cleanly: none reports an error, and reading returns the records of all of
them in order, then nothing, and no torn record. -/
theorem journal_reads_back (crc : Bytes → UInt32) (dir : List JournalFile)
    (hdir : ∀ file ∈ dir, segmentIndex file.name = none) (runs : List JournalRun)
    (hfits : ∀ run ∈ runs, run.Fits)
    (hcount : (runs.flatMap JournalRun.images).length < 2 ^ 32) :
    (afterRuns crc dir (runs.map (·, none))).2 = [] ∧
    ReadsTo crc (afterRuns crc dir (runs.map (·, none))).1 (runs.flatMap JournalRun.records)
      (.ok none) false := by
  have himages : (runs.map (·, none)).flatMap (leftImages crc) = runs.flatMap JournalRun.images := by
    simp [List.flatMap_map, leftImages]
  have hended : ∀ left ∈ runs.map (·, none), EndedInRecord left := by
    intro left hmem
    obtain ⟨run, hrun, rfl⟩ := List.mem_map.mp hmem
    exact ⟨hfits run hrun, by simp⟩
  obtain ⟨hiff, hjournal⟩ := afterRuns_spec crc _ dir [] (journalDir_nil crc hdir) hended
  rw [himages] at hiff hjournal
  have hnone := hiff.mpr (by simp only [List.length_nil, u32Max]; omega)
  have hrecords : (runs.flatMap JournalRun.images).flatMap SegmentImage.records =
      runs.flatMap JournalRun.records := by
    rw [List.flatMap_assoc]
    congr 1
    funext run
    exact run.images_records
  refine ⟨hnone, ?_⟩
  rw [← hrecords]
  refine readsTo_clean (hjournal hnone) ?_
  intro img hmem
  obtain ⟨run, hrun, himg⟩ := List.mem_flatMap.mp hmem
  exact JournalRun.images_clean (hfits run hrun) img himg

theorem journal_reads_back_sample :
    ReadsTo crc32 (afterRuns crc32 [] ([rotatedRun, rotatedRun].map (·, none))).1
      [sampleRecord, sampleRecord, sampleRecord, sampleRecord] (.ok none) false :=
  (journal_reads_back crc32 [] (by simp) [rotatedRun, rotatedRun] (by simpa using rotatedRun_fits)
    (by decide +kernel)).2

/-- The segments of clean runs. -/
theorem leftImages_clean (crc : Bytes → UInt32) {runs : List (JournalRun × Option Nat)}
    (hended : ∀ left ∈ runs, EndedInRecord left) (hclean : ∀ left ∈ runs, left.2 = none) :
    ∀ img ∈ runs.flatMap (leftImages crc),
      img.torn = [] ∧ ∀ record ∈ img.records, record.Fits := by
  intro img hmem
  obtain ⟨⟨run, crash⟩, hrun, himg⟩ := List.mem_flatMap.mp hmem
  have hnone : crash = none := hclean _ hrun
  subst hnone
  exact JournalRun.images_clean (hended _ hrun).1 img himg

theorem flatMap_leftImages_records (crc : Bytes → UInt32) (runs : List (JournalRun × Option Nat)) :
    (runs.flatMap (leftImages crc)).flatMap SegmentImage.records = runs.flatMap completeRecords := by
  rw [List.flatMap_assoc]
  congr 1
  funext left
  exact leftImages_records crc left

/-- Reading after the first run that crashed: to the end if it was the last run, and
up to the truncated record if others followed. -/
theorem readsTo_crashed (crc : Bytes → UInt32) {dir : List JournalFile}
    {front later : List (JournalRun × Option Nat)} {run : JournalRun} {cut : Nat}
    (hdir : JournalDir dir
      (imageFiles crc 0 ((front ++ (run, some cut) :: later).flatMap (leftImages crc))))
    (hended : ∀ left ∈ front ++ (run, some cut) :: later, EndedInRecord left)
    (hfront : ∀ left ∈ front, left.2 = none) :
    (later = [] →
      ReadsTo crc dir ((front ++ [(run, some cut)]).flatMap completeRecords) (.ok none) true) ∧
    (later ≠ [] → ∃ index offset,
      index + 1 = ((front ++ [(run, some cut)]).flatMap fun left => left.1.images).length ∧
      ReadsTo crc dir ((front ++ [(run, some cut)]).flatMap completeRecords)
        (.error (.truncated (segmentName index) offset)) false) := by
  have hrun := hended (run, some cut) (by simp)
  obtain ⟨closed, last, himages, -, htorn, hne⟩ := (hrun.2 cut rfl).torn hrun.1 crc
  -- The segments up to the crash, without the last one; and the last one.
  have hsplit : (front ++ (run, some cut) :: later).flatMap (leftImages crc) =
      (front.flatMap (leftImages crc) ++ closed) ++ [last.cutAt crc cut] ++
        later.flatMap (leftImages crc) := by
    simp [leftImages_cut crc himages]
  have hcrashed : (front ++ [(run, some cut)]).flatMap (leftImages crc) =
      (front.flatMap (leftImages crc) ++ closed) ++ [last.cutAt crc cut] := by
    simp [leftImages_cut crc himages]
  have hclean : ∀ img ∈ front.flatMap (leftImages crc) ++ closed,
      img.torn = [] ∧ ∀ record ∈ img.records, record.Fits := by
    intro img hmem
    rcases List.mem_append.mp hmem with hmem | hmem
    · exact leftImages_clean crc (fun x hx => hended x (by simp [hx])) hfront img hmem
    · exact JournalRun.images_clean hrun.1 img (by simp [himages, hmem])
  have hfits : ∀ record ∈ (last.cutAt crc cut).records, record.Fits := fun record hmem =>
    (JournalRun.images_clean hrun.1 last (by simp [himages])).2 record (fitting_subset _ _ hmem)
  rw [hsplit, imageFiles_append] at hdir
  obtain ⟨hend, htruncated⟩ := readsTo_torn hdir hclean hfits htorn hne
  rw [← hcrashed, flatMap_leftImages_records] at hend htruncated
  refine ⟨?_, ?_⟩
  · rintro rfl
    exact hend (by simp [imageFiles])
  · intro hlater
    refine ⟨_, _, ?_, htruncated ?_⟩
    · have hfront' : front.flatMap (leftImages crc) = front.flatMap fun left => left.1.images := by
        refine List.flatMap_congr fun left hmem => ?_
        obtain ⟨run', crash⟩ := left
        have hnone : crash = none := hfront _ hmem
        subst hnone
        rfl
      simp [hfront', himages, Nat.add_assoc]
    · obtain ⟨left, rest, rfl⟩ := List.exists_cons_of_ne_nil hlater
      have hlen := length_leftImages crc (hended left (by simp))
      have hpos : 0 < left.1.images.length := place_pos ..
      refine List.ne_nil_of_length_pos ?_
      rw [length_imageFiles, List.flatMap_cons, List.length_append]
      omega

/-- A journal over crashes. Runs over a directory, each finished cleanly or crashed
inside a record, and none with an error: if none but the last crashed, reading
returns every complete record; after a crash of an earlier run it returns the
complete records of the runs up to the first that crashed, and then reports that
run's last segment as truncated. -/
theorem journal_reads_to_first_crash (crc : Bytes → UInt32) (dir : List JournalFile)
    (hdir : ∀ file ∈ dir, segmentIndex file.name = none) (runs : List (JournalRun × Option Nat))
    (hended : ∀ left ∈ runs, EndedInRecord left) (hnone : (afterRuns crc dir runs).2 = []) :
    ((∀ left ∈ runs.dropLast, left.2 = none) →
      ReadsTo crc (afterRuns crc dir runs).1 (runs.flatMap completeRecords) (.ok none)
        (runs.getLast?.any fun left => left.2.isSome)) ∧
    (∀ front run cut later, runs = front ++ (run, some cut) :: later →
      (∀ left ∈ front, left.2 = none) → later ≠ [] → ∃ index offset,
      index + 1 = ((front ++ [(run, some cut)]).flatMap fun left => left.1.images).length ∧
      ReadsTo crc (afterRuns crc dir runs).1 ((front ++ [(run, some cut)]).flatMap completeRecords)
        (.error (.truncated (segmentName index) offset)) false) := by
  have hjournal := (afterRuns_spec crc runs dir [] (journalDir_nil crc hdir) hended).2 hnone
  rw [List.nil_append] at hjournal
  refine ⟨?_, ?_⟩
  · intro hfront
    rcases List.eq_nil_or_concat' runs with rfl | ⟨front, ⟨run, crash⟩, rfl⟩
    · exact readsTo_clean hjournal (by simp)
    · rw [List.dropLast_concat] at hfront
      cases crash with
      | none =>
          rw [← flatMap_leftImages_records crc]
          simp only [List.getLast?_concat, Option.any_some, Option.isSome_none]
          refine readsTo_clean hjournal (leftImages_clean crc hended ?_)
          intro left hmem
          rcases List.mem_append.mp hmem with hmem | hmem
          · exact hfront left hmem
          · rw [List.mem_singleton.mp hmem]
      | some cut =>
          simp only [List.getLast?_concat, Option.any_some, Option.isSome_some]
          exact (readsTo_crashed crc hjournal hended hfront).1 rfl
  · rintro front run cut later rfl hfront hlater
    exact (readsTo_crashed crc hjournal hended hfront).2 hlater

/-- One record. -/
def shortRun : JournalRun := ⟨1000, 1, [(sampleRecord, 2)]⟩

/-- A run that crashed inside its record, and another run after it. -/
def crashedRuns : List (JournalRun × Option Nat) := [(shortRun, some 40), (shortRun, none)]

theorem crashedRuns_ended : ∀ left ∈ crashedRuns, EndedInRecord left := by
  have hfits : shortRun.Fits := by
    intro record hmem
    have heq : record = sampleRecord := by simpa [shortRun, JournalRun.records] using hmem
    rw [heq, Record.Fits]
    decide
  have himages : shortRun.images = [] ++ [⟨1, [sampleRecord], []⟩] := rfl
  intro left hmem
  rcases List.mem_cons.mp hmem with rfl | hmem
  · refine ⟨hfits, fun cut hcut => ?_⟩
    cases hcut
    exact ⟨[], _, 0, himages, by decide, by decide, by decide⟩
  · rw [List.mem_singleton.mp hmem]
    exact ⟨hfits, by simp⟩

theorem crashedRuns_count : (crashedRuns.flatMap (leftImages crc32)).length ≤ u32Max + 1 := by
  have hlen : (crashedRuns.flatMap (leftImages crc32)).length = 2 := by decide +kernel
  rw [hlen]
  decide

theorem journal_reads_to_first_crash_sample : ∃ index offset,
    ReadsTo crc32 (afterRuns crc32 [] crashedRuns).1 [] (.error (.truncated (segmentName index) offset))
      false := by
  have hnone : (afterRuns crc32 [] crashedRuns).2 = [] :=
    (afterRuns_spec crc32 crashedRuns [] [] (journalDir_nil crc32 (by simp)) crashedRuns_ended).1.mpr
      (by simpa using crashedRuns_count)
  obtain ⟨index, offset, -, hreads⟩ := (journal_reads_to_first_crash crc32 [] (by simp) crashedRuns
    crashedRuns_ended hnone).2 [] shortRun 40 [(shortRun, none)] rfl (by simp) (by simp)
  exact ⟨index, offset, hreads⟩

/-- The run after the crash wrote a record, and reading does not get to it. -/
theorem run_after_crash_is_not_read :
    (∀ left ∈ crashedRuns, EndedInRecord left) ∧ (afterRuns crc32 [] crashedRuns).2 = [] ∧
    crashedRuns.flatMap completeRecords = [sampleRecord] ∧
    ¬ ∃ torn, ReadsTo crc32 (afterRuns crc32 [] crashedRuns).1 [sampleRecord] (.ok none) torn := by
  have hempty : JournalDir [] (imageFiles crc32 0 []) := journalDir_nil crc32 (by simp)
  obtain ⟨hiff, hjournal⟩ := afterRuns_spec crc32 crashedRuns [] [] hempty crashedRuns_ended
  have hnone := hiff.mpr (by simpa using crashedRuns_count)
  refine ⟨crashedRuns_ended, hnone, by decide +kernel, ?_⟩
  rintro ⟨torn, h⟩
  have hcomplete : completeRecords (shortRun, some 40) = [] := by decide +kernel
  obtain ⟨index, offset, herror⟩ : ∃ index offset,
      ReadsTo crc32 (afterRuns crc32 [] crashedRuns).1 (completeRecords (shortRun, some 40))
        (.error (.truncated (segmentName index) offset)) false := by
    have hcrashed : JournalDir (afterRuns crc32 [] crashedRuns).1 (imageFiles crc32 0
        (([] ++ (shortRun, some 40) :: [(shortRun, none)]).flatMap (leftImages crc32))) :=
      hjournal hnone
    obtain ⟨index, offset, -, hreads⟩ :=
      (readsTo_crashed crc32 hcrashed crashedRuns_ended (by simp)).2 (by simp)
    exact ⟨index, offset, by simpa using hreads⟩
  rw [hcomplete] at herror
  simpa using herror.take_eq h (Nat.zero_le _)

end Runs

end Bowst.Journal
