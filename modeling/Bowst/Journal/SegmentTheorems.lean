/-
Bowst.Journal.SegmentTheorems — a journal as its segments' contents, and that the
writer produces them.

A segment is the time it was started at and the records in it. `place` says how a
run spreads its records over segments; the sink refines it: after a run the
directory holds the files of the segments that were there and of those the run
placed.

  §1 Names   — a segment's name names it.
  §2 Headers — a file's header reads back.
  §3 Directories — the files of a journal among others.
  §4 Images  — segments and their files.
  §5 Writer  — the sink refines `place`.
-/
import Bowst.Core.TextTheorems
import Bowst.Journal.FormatTheorems

namespace Bowst.Journal

open Bowst.Lib
open Bowst.Core

/-! ## §1 Names -/

theorem padded_spec (width n : Nat) :
    padded width n ≠ [] ∧ AllDigits (padded width n) ∧ foldDigits 0 (padded width n) = n := by
  obtain ⟨hne, hall, hvalue⟩ := natText_spec n
  have hzeros : ∀ byte ∈ List.replicate (width - (natText n).length) (48 : UInt8), byte = 48 :=
    fun byte hmem => (List.mem_replicate.mp hmem).2
  refine ⟨?_, ?_, ?_⟩
  · simp [padded, hne]
  · intro byte hmem
    rcases List.mem_append.mp hmem with hzero | hdigit
    · rw [hzeros byte hzero]
      decide
    · exact hall byte hdigit
  · rw [padded, foldDigits_append, foldDigits_zeros _ hzeros]
    simpa using hvalue

theorem validUtf8_segmentName (index : Nat) : validUtf8 (segmentName index) = true := by
  refine validUtf8_of_ascii fun byte hmem => ?_
  have hstart : ∀ byte ∈ ascii "journal-", byte < 0x80 := by decide +kernel
  have hending : ∀ byte ∈ ascii ".bjl", byte < 0x80 := by decide +kernel
  rcases List.mem_append.mp hmem with hfront | hend
  · rcases List.mem_append.mp hfront with hst | hdigit
    · exact hstart byte hst
    · have hrange := (isDigit_iff byte).mp ((padded_spec 8 index).2.1 byte hdigit)
      rw [UInt8.lt_iff_toNat_lt]
      exact lt_of_le_of_lt hrange.2 (by decide)
  · exact hending byte hend

/-- A segment's name names its index. -/
theorem segmentIndex_segmentName {index : Nat} (h : index ≤ u32Max) :
    segmentIndex (segmentName index) = some index := by
  obtain ⟨hne, hall, hvalue⟩ := padded_spec 8 index
  have hstart : stripStart (ascii "journal-") (segmentName index) =
      some (padded 8 index ++ ascii ".bjl") := by
    rw [segmentName, List.append_assoc, stripStart, if_pos (List.prefix_append ..), List.drop_left]
  have hending : stripEnd (ascii ".bjl") (padded 8 index ++ ascii ".bjl") = some (padded 8 index) := by
    rw [stripEnd, if_pos (List.suffix_append ..), List.length_append, Nat.add_sub_cancel,
      List.take_left]
  have hdigits : parseUnsigned u32Max (padded 8 index) = some index := by
    rw [parseUnsigned_digits hne hall (by rw [hvalue]; exact h), hvalue]
  simp [segmentIndex, validUtf8_segmentName, hstart, hending, hdigits]

/-! ## §2 Headers -/

theorem encodeFileHeader_eq (segment : Nat) (created : UInt64) :
    encodeFileHeader segment created =
      magic ++ (toLe 4 version ++ (toLe 4 segment ++ (toLe 8 created.toNat ++ List.replicate 8 0))) := by
  rw [encodeFileHeader, putFields_eq _ _ _ (by simp [magic, ascii, fileHeaderLen])]
  simp [splice, magic, ascii, fileHeaderLen]

@[simp] theorem length_encodeFileHeader (segment : Nat) (created : UInt64) :
    (encodeFileHeader segment created).length = fileHeaderLen := by
  rw [encodeFileHeader, length_putFields, List.length_replicate]

/-- A file header is accepted, whatever follows it. -/
theorem decodeFileHeader_append (segment : Nat) (created : UInt64) (rest : Bytes) :
    decodeFileHeader (encodeFileHeader segment created ++ rest) = .ok (segment % 256 ^ 4) := by
  have hlen : ¬ (encodeFileHeader segment created ++ rest).length < fileHeaderLen := by simp
  have hmagic : (encodeFileHeader segment created ++ rest).take 8 = magic := by
    rw [encodeFileHeader_eq, List.append_assoc]
    exact List.take_left' rfl
  have hversion : uintAt 4 (encodeFileHeader segment created ++ rest) 8 = version := by
    rw [encodeFileHeader_eq]
    simp only [List.append_assoc]
    exact uintAt_toLe rfl (by decide) _
  have hsegment : uintAt 4 (encodeFileHeader segment created ++ rest) 12 = segment % 256 ^ 4 := by
    rw [encodeFileHeader_eq]
    simp only [List.append_assoc]
    have hpos : (magic ++ toLe 4 version).length = 12 := rfl
    rw [← List.append_assoc magic, uintAt_append_length hpos (length_toLe 4 segment), ofLe_toLe]
  rw [decodeFileHeader, if_neg (by simp [hmagic, hversion]), hsegment]

/-- A file that ends inside its header is not accepted. -/
theorem decodeFileHeader_short {bytes : Bytes} (h : bytes.length < fileHeaderLen) :
    decodeFileHeader bytes = .error .badFileHeader := by
  rw [decodeFileHeader, if_pos (Or.inl h)]

/-! ## §3 Directories -/

/-- Files with the names of the segments from `index` on. -/
def Named : Nat → List JournalFile → Prop
  | _, [] => True
  | index, file :: rest => file.name = segmentName index ∧ Named (index + 1) rest

/-- Files with their numbers from `index` on. -/
def numbered : Nat → List JournalFile → List (Nat × JournalFile)
  | _, [] => []
  | index, file :: rest => (index, file) :: numbered (index + 1) rest

theorem numbered_snd (index : Nat) (files : List JournalFile) :
    (numbered index files).map Prod.snd = files := by
  induction files generalizing index with
  | nil => rfl
  | cons file rest ih => simp [numbered, ih]

theorem numbered_fst (index : Nat) (files : List JournalFile) :
    (numbered index files).map Prod.fst = List.range' index files.length := by
  induction files generalizing index with
  | nil => rfl
  | cons file rest ih => simp [numbered, ih, List.range'_succ]

theorem Named.append : ∀ {xs ys : List JournalFile} {index : Nat}, Named index xs →
    Named (index + xs.length) ys → Named index (xs ++ ys) := by
  intro xs
  induction xs with
  | nil => intro ys index _ hys; simpa using hys
  | cons file rest ih =>
      intro ys index hxs hys
      have hnext : index + 1 + rest.length = index + (rest.length + 1) := by omega
      exact ⟨hxs.1, ih hxs.2 (by rw [hnext]; exact hys)⟩

/-- The last of some named files. -/
theorem Named.last : ∀ {xs : List JournalFile} {index : Nat} {file : JournalFile},
    Named index (xs ++ [file]) → file.name = segmentName (index + xs.length) := by
  intro xs
  induction xs with
  | nil => intro index file h; exact h.1
  | cons x rest ih =>
      intro index file h
      rw [ih h.2, List.length_cons, Nat.add_assoc, Nat.add_comm 1]

/-- The names of a journal's files number them. -/
theorem Named.filterMap_eq : ∀ {files : List JournalFile} {index : Nat}, Named index files →
    index + files.length ≤ u32Max + 1 →
      files.filterMap (fun file => (segmentIndex file.name).map fun index => (index, file)) =
        numbered index files := by
  intro files
  induction files with
  | nil => intro index _ _; rfl
  | cons file rest ih =>
      intro index hnamed hle
      simp only [List.length_cons] at hle
      have hname : segmentIndex file.name = some index := by
        rw [hnamed.1]
        exact segmentIndex_segmentName (by omega)
      simp only [numbered, List.filterMap_cons, hname, Option.map_some, ih hnamed.2 (by omega)]

/-- A directory with a journal in it: the journal's files, and others. -/
structure JournalDir (dir files : List JournalFile) : Prop where
  parts : ∃ other, dir = other ++ files ∧ ∀ file ∈ other, segmentIndex file.name = none
  named : Named 0 files
  count : files.length ≤ u32Max + 1

namespace JournalDir

variable {dir files : List JournalFile}

/-- The segments present, with their numbers. -/
theorem filterMap_eq (h : JournalDir dir files) :
    dir.filterMap (fun file => (segmentIndex file.name).map fun index => (index, file)) =
      numbered 0 files := by
  obtain ⟨other, rfl, hother⟩ := h.parts
  have hnone : other.filterMap
      (fun file => (segmentIndex file.name).map fun index => (index, file)) = [] := by
    refine List.filterMap_eq_nil_iff.mpr fun file hmem => ?_
    rw [hother file hmem]
    rfl
  rw [List.filterMap_append, hnone, List.nil_append,
    h.named.filterMap_eq (by have := h.count; omega)]

/-- The indices present. -/
theorem indices (h : JournalDir dir files) :
    dir.filterMap (fun file => segmentIndex file.name) = List.range' 0 files.length := by
  rw [← numbered_fst, ← h.filterMap_eq, List.map_filterMap]
  simp [Function.comp_def]

/-- A run continues after the highest index. -/
theorem nextSegmentIndex_eq (h : JournalDir dir files) :
    nextSegmentIndex dir = min files.length u32Max := by
  rw [nextSegmentIndex, h.indices]
  cases hlen : files.length with
  | zero => rfl
  | succ n =>
      have hmax : (List.range' 0 (n + 1)).max? = some n := by
        refine List.max?_eq_some_iff.mpr ⟨by simp [List.mem_range'_1], fun k hk => ?_⟩
        have hlt := (List.mem_range'_1.mp hk).2
        omega
      rw [hmax]

/-- The next segment can be created. -/
theorem create (h : JournalDir dir files) (hcount : files.length ≤ u32Max) (created : UInt64) :
    Segment.create dir files.length created =
      .ok ⟨segmentName files.length, encodeFileHeader files.length created, fileHeaderLen⟩ := by
  rw [Segment.create, if_neg]
  intro hany
  obtain ⟨file, hmem, hname⟩ := List.any_eq_true.mp hany
  have hname' : file.name = segmentName files.length := by simpa using hname
  have hindex : files.length ∈ dir.filterMap (fun file => segmentIndex file.name) :=
    List.mem_filterMap.mpr ⟨file, hmem, by rw [hname', segmentIndex_segmentName hcount]⟩
  rw [h.indices] at hindex
  simp [List.mem_range'_1] at hindex

theorem append {more : List JournalFile} (h : JournalDir dir files)
    (hnamed : Named files.length more) (hcount : files.length + more.length ≤ u32Max + 1) :
    JournalDir (dir ++ more) (files ++ more) := by
  obtain ⟨other, rfl, hother⟩ := h.parts
  refine ⟨⟨other, List.append_assoc .., hother⟩, h.named.append ?_, by simpa using hcount⟩
  simpa using hnamed

/-- There is no run over a journal with every number taken. -/
theorem start_full (h : JournalDir dir files) (hcount : files.length = u32Max + 1)
    (segmentBytes : Nat) (created : UInt64) :
    ∃ error, Sink.start dir segmentBytes created = .error error := by
  have hnext : nextSegmentIndex dir = u32Max := by rw [h.nextSegmentIndex_eq]; omega
  have hexists : dir.any (fun file => file.name = segmentName u32Max) = true := by
    obtain ⟨other, rfl, -⟩ := h.parts
    obtain ⟨closed, last, rfl⟩ : ∃ closed last, files = closed ++ [last] := by
      have hne : files ≠ [] := List.ne_nil_of_length_eq_add_one hcount
      exact ⟨files.dropLast, files.getLast hne, (List.dropLast_concat_getLast hne).symm⟩
    have hlen : closed.length = u32Max := by simpa using hcount
    have hname : last.name = segmentName u32Max := by rw [h.named.last, hlen, Nat.zero_add]
    simp [hname]
  exact ⟨.exists (segmentName u32Max), by simp [Sink.start, Segment.create, hnext, hexists]; rfl⟩

end JournalDir

/-! ## §4 Images -/

/-- Bytes a record takes in a file. -/
def Record.size (record : Record) : Nat := recordHeaderLen + record.payload.length

/-- A record that may be written. -/
def Record.Fits (record : Record) : Prop := record.payload.length ≤ maxPayload

/-- A segment: when it was started, the records in it, and what a crash left of
one more. -/
structure SegmentImage where
  created : UInt64
  records : List Record
  torn : Bytes
  deriving DecidableEq, Repr

/-- Bytes of some records. -/
def recordsSize (records : List Record) : Nat := (records.map Record.size).sum

/-- Bytes of a segment's file header and records. -/
def SegmentImage.size (img : SegmentImage) : Nat := fileHeaderLen + recordsSize img.records

section Image

variable (crc : Bytes → UInt32)

/-- A record's bytes in a file. -/
def Record.bytes (record : Record) : Bytes := sealedRecord crc record.header record.payload

/-- Records one after the other. -/
def recordBytes (records : List Record) : Bytes := records.flatMap (Record.bytes crc)

@[simp] theorem recordBytes_nil : recordBytes crc [] = [] := rfl

@[simp] theorem recordBytes_cons (record : Record) (records : List Record) :
    recordBytes crc (record :: records) = record.bytes crc ++ recordBytes crc records := rfl

theorem recordBytes_append (xs ys : List Record) :
    recordBytes crc (xs ++ ys) = recordBytes crc xs ++ recordBytes crc ys := List.flatMap_append ..

@[simp] theorem Record.length_bytes (record : Record) : (record.bytes crc).length = record.size :=
  length_sealedRecord ..

@[simp] theorem length_recordBytes (records : List Record) :
    (recordBytes crc records).length = recordsSize records := by
  induction records with
  | nil => rfl
  | cons record records ih => simp [recordsSize, ih]

/-- A segment's bytes. -/
def SegmentImage.data (img : SegmentImage) (index : Nat) : Bytes :=
  encodeFileHeader index img.created ++ (recordBytes crc img.records ++ img.torn)

/-- A segment's file. -/
def SegmentImage.file (img : SegmentImage) (index : Nat) : JournalFile :=
  ⟨segmentName index, img.data crc index⟩

/-- The files of segments numbered from `index`. -/
def imageFiles : Nat → List SegmentImage → List JournalFile
  | _, [] => []
  | index, img :: rest => img.file crc index :: imageFiles (index + 1) rest

theorem imageFiles_append : ∀ (index : Nat) (xs ys : List SegmentImage),
    imageFiles crc index (xs ++ ys) =
      imageFiles crc index xs ++ imageFiles crc (index + xs.length) ys := by
  intro index xs
  induction xs generalizing index with
  | nil => intro ys; rfl
  | cons img xs ih =>
      intro ys
      simp [imageFiles, ih, Nat.add_assoc, Nat.add_comm 1]

@[simp] theorem length_imageFiles (index : Nat) (images : List SegmentImage) :
    (imageFiles crc index images).length = images.length := by
  induction images generalizing index with
  | nil => rfl
  | cons img rest ih => simp [imageFiles, ih]

theorem named_imageFiles (index : Nat) (images : List SegmentImage) :
    Named index (imageFiles crc index images) := by
  induction images generalizing index with
  | nil => trivial
  | cons img rest ih => exact ⟨rfl, ih (index + 1)⟩

end Image

/-- How a run spreads records over segments: a segment that has reached the limit
is closed before the next record. Sizes count as far as a `u64` does. -/
def place (segmentBytes : Nat) : SegmentImage → List (Record × UInt64) → List SegmentImage
  | img, [] => [img]
  | img, (record, now) :: rest =>
      if segmentBytes ≤ min img.size u64Max then img :: place segmentBytes ⟨now, [record], []⟩ rest
      else place segmentBytes { img with records := img.records ++ [record] } rest

theorem place_records (segmentBytes : Nat) : ∀ (writes : List (Record × UInt64)) (img : SegmentImage),
    (place segmentBytes img writes).flatMap SegmentImage.records =
      img.records ++ writes.map Prod.fst := by
  intro writes
  induction writes with
  | nil => intro img; simp [place]
  | cons write rest ih =>
      intro img
      rw [place]
      split_ifs with hfull
      · simp [ih]
      · simp [ih]

theorem place_torn (segmentBytes : Nat) : ∀ (writes : List (Record × UInt64)) (img : SegmentImage),
    img.torn = [] → ∀ img' ∈ place segmentBytes img writes, img'.torn = [] := by
  intro writes
  induction writes with
  | nil => intro img h; simpa [place] using h
  | cons write rest ih =>
      intro img h img' hmem
      rw [place] at hmem
      split_ifs at hmem with hfull
      · rcases List.mem_cons.mp hmem with rfl | hmem
        · exact h
        · exact ih _ rfl img' hmem
      · exact ih { img with records := img.records ++ [write.1] } h img' hmem

theorem place_pos (segmentBytes : Nat) : ∀ (img : SegmentImage) (writes : List (Record × UInt64)),
    0 < (place segmentBytes img writes).length := by
  intro img writes
  induction writes generalizing img with
  | nil => exact Nat.one_pos
  | cons write rest ih =>
      rw [place]
      split_ifs with hfull
      · simp
      · exact ih _

/-- `write` for every record of a run. -/
def Sink.writeAll (crc : Bytes → UInt32) (s : Sink) (writes : List (Record × UInt64)) : Sink :=
  writes.foldl (fun s write => s.write crc (ringRecord write.1.header write.1.payload) write.2) s

theorem Sink.writeAll_cons (crc : Bytes → UInt32) (s : Sink) (record : Record) (now : UInt64)
    (rest : List (Record × UInt64)) : s.writeAll crc ((record, now) :: rest) =
      (s.write crc (ringRecord record.header record.payload) now).writeAll crc rest := rfl

/-- One run of the writer: its limit, and the records with the times at which a
segment would be started for them. -/
structure JournalRun where
  segmentBytes : Nat
  created : UInt64
  writes : List (Record × UInt64)
  deriving DecidableEq, Repr

namespace JournalRun

/-- The records of a run. -/
def records (run : JournalRun) : List Record := run.writes.map Prod.fst

/-- The segments of a run. -/
def images (run : JournalRun) : List SegmentImage :=
  place run.segmentBytes ⟨run.created, [], []⟩ run.writes

theorem images_records (run : JournalRun) :
    run.images.flatMap SegmentImage.records = run.records := by
  rw [images, place_records, records, List.nil_append]

/-- A run of records that may be written. -/
def Fits (run : JournalRun) : Prop := ∀ record ∈ run.records, record.Fits

theorem images_clean {run : JournalRun} (hfits : run.Fits) :
    ∀ img ∈ run.images, img.torn = [] ∧ ∀ record ∈ img.records, record.Fits := by
  intro img hmem
  refine ⟨place_torn run.segmentBytes run.writes ⟨run.created, [], []⟩ rfl img hmem, fun record hrecord => hfits record ?_⟩
  rw [← run.images_records]
  exact List.mem_flatMap.mpr ⟨img, hmem, hrecord⟩

/-- A run over a directory: `start`, a `write` for every record, and the end. The
directory it leaves, and its error if there was one. -/
def finish (crc : Bytes → UInt32) (run : JournalRun) (dir : List JournalFile) :
    List JournalFile × Option JournalError :=
  match Sink.start dir run.segmentBytes run.created with
  | .error error => (dir, some error)
  | .ok s => ((s.writeAll crc run.writes).files, (s.writeAll crc run.writes).error)

end JournalRun

/-! ## §5 Writer -/

section Writer

variable (crc : Bytes → UInt32)

/-- A sink whose closed segments are `images` and whose open segment is `img`. -/
structure Sink.Writes (s : Sink) (images : List SegmentImage) (img : SegmentImage) : Prop where
  closed : JournalDir s.closed (imageFiles crc 0 images)
  segment : s.segment = ⟨segmentName images.length, img.data crc images.length, min img.size u64Max⟩
  torn : img.torn = []
  index : s.index = images.length
  count : images.length ≤ u32Max
  error : s.error = none

namespace Sink

variable {crc} {s : Sink} {images : List SegmentImage} {img : SegmentImage}

theorem Writes.files_eq (h : s.Writes crc images img) :
    s.files = s.closed ++ imageFiles crc images.length [img] := by
  rw [files, h.segment]
  rfl

/-- The sink of a new run. -/
theorem start_writes {dir : List JournalFile} (hdir : JournalDir dir (imageFiles crc 0 images))
    (hcount : images.length ≤ u32Max) (segmentBytes : Nat) (created : UInt64) :
    ∃ s, Sink.start dir segmentBytes created = .ok s ∧ s.segmentBytes = segmentBytes ∧
      s.closed = dir ∧ s.Writes crc images ⟨created, [], []⟩ := by
  have hlen := length_imageFiles crc 0 images
  have hnext : nextSegmentIndex dir = images.length := by
    rw [hdir.nextSegmentIndex_eq, hlen, Nat.min_eq_left hcount]
  have hcreate := hdir.create (by omega) created
  rw [hlen] at hcreate
  refine ⟨_, by rw [Sink.start, hnext, hcreate]; rfl, rfl, rfl, ?_⟩
  refine ⟨hdir, ?_, rfl, ?_, hcount, rfl⟩
  · simp [SegmentImage.data, SegmentImage.size, recordsSize, fileHeaderLen, u64Max]
  · simp [segmentIndex_segmentName hcount]

/-- A new segment. -/
theorem Writes.rotate (h : s.Writes crc images img) (hcount : images.length + 1 ≤ u32Max)
    (now : UInt64) :
    (s.rotate now).Writes crc (images ++ [img]) ⟨now, [], []⟩ ∧
      (s.rotate now).segmentBytes = s.segmentBytes ∧ (s.rotate now).closed = s.files := by
  have hlen : (images ++ [img]).length = images.length + 1 := by simp
  have hfiles : JournalDir s.files (imageFiles crc 0 (images ++ [img])) := by
    rw [h.files_eq, imageFiles_append, Nat.zero_add]
    exact h.closed.append (by simpa using named_imageFiles ..) (by simp; omega)
  have hcreate := hfiles.create (by simp; omega) now
  rw [length_imageFiles] at hcreate
  have hnext : min (s.index + 1) u32Max = (images ++ [img]).length := by
    rw [h.index, hlen, Nat.min_eq_left hcount]
  have hrotate : s.rotate now =
      { s with closed := s.files
               segment := ⟨segmentName (images ++ [img]).length,
                 encodeFileHeader (images ++ [img]).length now, fileHeaderLen⟩
               index := (images ++ [img]).length
               stats := { s.stats with segments := min (s.stats.segments + 1) u32Max } } := by
    rw [Sink.rotate]
    simp only [hnext, hcreate]
  rw [hrotate]
  refine ⟨⟨hfiles, ?_, rfl, rfl, by omega, h.error⟩, rfl, rfl⟩
  simp [SegmentImage.data, SegmentImage.size, recordsSize, fileHeaderLen, u64Max]

/-- A record in the open segment. -/
theorem Writes.put (h : s.Writes crc images img) (record : Record) :
    (s.put crc (ringRecord record.header record.payload)).Writes crc images
      { img with records := img.records ++ [record] } := by
  have hlen : (ringRecord record.header record.payload).length = record.size := by
    simp [ringRecord, encodeRecordHeader, length_putFields, Record.size]
  have hsize : min ({ img with records := img.records ++ [record] } : SegmentImage).size u64Max =
      saturatingAdd (min img.size u64Max) record.size := by
    simp only [SegmentImage.size, recordsSize, saturatingAdd, List.map_append, List.sum_append,
      List.map_cons, List.map_nil, List.sum_cons, List.sum_nil]
    omega
  refine ⟨h.closed, ?_, h.torn, h.index, h.count, h.error⟩
  simp only [Sink.put, h.segment, hlen, hsize, emit_ringRecord]
  simp [SegmentImage.data, h.torn, recordBytes_append, Record.bytes]

/-- A write where there is room. -/
theorem Writes.write_room (h : s.Writes crc images img)
    (hroom : ¬ s.segmentBytes ≤ min img.size u64Max) (record : Bytes) (now : UInt64) :
    s.write crc record now = s.put crc record := by
  have hbytes : s.segment.bytes = min img.size u64Max := by rw [h.segment]
  simp [Sink.write, h.error, hbytes, hroom]

/-- A write that has to start a segment. -/
theorem Writes.write_full (h : s.Writes crc images img)
    (hfull : s.segmentBytes ≤ min img.size u64Max) (hcount : images.length + 1 ≤ u32Max)
    (record : Bytes) (now : UInt64) :
    s.write crc record now = (s.rotate now).put crc record := by
  have hbytes : s.segment.bytes = min img.size u64Max := by rw [h.segment]
  have herror := (h.rotate hcount now).1.error
  have hif : (if s.segment.bytes ≥ s.segmentBytes then s.rotate now else s) = s.rotate now :=
    if_pos (by rw [hbytes]; exact hfull)
  simp only [Sink.write, hif, h.error, herror, Option.isSome_none, Bool.false_eq_true, if_false]

/-- The last number is taken by the open segment itself. -/
theorem Writes.rotate_last (h : s.Writes crc images img) (hcount : images.length = u32Max)
    (now : UInt64) : ∃ error, s.rotate now = { s with error := some error } := by
  have hexists : s.files.any (fun file => file.name = segmentName u32Max) = true := by
    simp [files, h.segment, hcount]
  have hnext : min (s.index + 1) u32Max = u32Max := by rw [h.index, hcount]; omega
  refine ⟨.exists (segmentName u32Max), ?_⟩
  simp [Sink.rotate, hnext, Segment.create, hexists, h.error]

/-- A write that cannot start a segment. -/
theorem Writes.write_last (h : s.Writes crc images img)
    (hfull : s.segmentBytes ≤ min img.size u64Max) (hcount : images.length = u32Max)
    (record : Bytes) (now : UInt64) :
    (s.write crc record now).files = s.files ∧ (s.write crc record now).error.isSome := by
  have hbytes : s.segment.bytes = min img.size u64Max := by rw [h.segment]
  obtain ⟨error, hrotate⟩ := h.rotate_last hcount now
  have hif : (if s.segment.bytes ≥ s.segmentBytes then s.rotate now else s) =
      { s with error := some error } := by
    rw [if_pos (by rw [hbytes]; exact hfull), hrotate]
  have hwrite : s.write crc record now = ({ s with error := some error } : Sink).lose := by
    simp [Sink.write, hif, h.error]
  rw [hwrite]
  exact ⟨rfl, rfl⟩

/-- A sink with an error writes nothing. -/
theorem failed_run (crc : Bytes → UInt32) : ∀ (writes : List (Record × UInt64)) (s : Sink),
    s.error.isSome →
      (s.writeAll crc writes).files = s.files ∧ (s.writeAll crc writes).error.isSome := by
  intro writes
  induction writes with
  | nil => intro s h; exact ⟨rfl, h⟩
  | cons write rest ih =>
      intro s h
      have hwrite : s.write crc (ringRecord write.1.header write.1.payload) write.2 = s.lose := by
        rw [Sink.write, if_pos h]
      rw [Sink.writeAll_cons, hwrite]
      exact ih s.lose h

/-- The records of a run, one write after the other, as far as the numbers last. -/
theorem Writes.run {crc : Bytes → UInt32} : ∀ (writes : List (Record × UInt64)) (s : Sink)
    (images : List SegmentImage) (img : SegmentImage), s.Writes crc images img →
    (s.writeAll crc writes).files = s.closed ++ imageFiles crc images.length
        ((place s.segmentBytes img writes).take (u32Max + 1 - images.length)) ∧
      ((s.writeAll crc writes).error = none ↔
        images.length + (place s.segmentBytes img writes).length ≤ u32Max + 1) := by
  intro writes
  induction writes with
  | nil =>
      intro s images img h
      have hcount := h.count
      refine ⟨?_, by simpa [Sink.writeAll, h.error, place] using hcount⟩
      rw [place, List.take_of_length_le (by simp; omega)]
      exact h.files_eq
  | cons write rest ih =>
      intro s images img h
      obtain ⟨record, now⟩ := write
      have hcount := h.count
      rw [Sink.writeAll_cons, place]
      by_cases hfull : s.segmentBytes ≤ min img.size u64Max
      · rw [if_pos hfull]
        have hpos : 0 < (place s.segmentBytes ⟨now, [record], []⟩ rest).length := place_pos ..
        by_cases hroom : images.length + 1 ≤ u32Max
        · -- The segment is closed; the record is the first of the next one.
          obtain ⟨hrotate, hlimit, hclosed⟩ := h.rotate hroom now
          have hrun := ih _ _ _ (hrotate.put record)
          have htake : u32Max + 1 - images.length = u32Max + 1 - (images ++ [img]).length + 1 := by
            simp
            omega
          rw [h.write_full hfull hroom]
          refine ⟨?_, ?_⟩
          · rw [hrun.1, htake, List.take_succ_cons]
            simp [Sink.put, hlimit, hclosed, h.files_eq, imageFiles]
          · rw [hrun.2]
            simp [Sink.put, hlimit]
            omega
        · obtain ⟨hfiles, herror⟩ := h.write_last hfull (by omega)
            (ringRecord record.header record.payload) now
          have hrun := failed_run crc rest _ herror
          refine ⟨?_, ?_⟩
          · have htake : u32Max + 1 - images.length = 1 := by omega
            rw [hrun.1, hfiles, htake]
            exact h.files_eq
          · have hsome := hrun.2
            constructor
            · intro hnone
              rw [hnone] at hsome
              cases hsome
            · simp only [List.length_cons]
              omega
      · rw [if_neg hfull, h.write_room hfull]
        exact ih _ _ _ (h.put record)

end Sink

/-- A run over a journal leaves the journal with the run's segments behind it, as
far as the numbers last. -/
theorem JournalRun.finish_spec {crc : Bytes → UInt32} (run : JournalRun) {dir : List JournalFile}
    {images : List SegmentImage} (hdir : JournalDir dir (imageFiles crc 0 images)) :
    (run.finish crc dir).1 =
        dir ++ imageFiles crc images.length (run.images.take (u32Max + 1 - images.length)) ∧
      ((run.finish crc dir).2 = none ↔ images.length + run.images.length ≤ u32Max + 1) := by
  have hpos : 0 < run.images.length := place_pos ..
  by_cases hcount : images.length ≤ u32Max
  · obtain ⟨s, hstart, hlimit, hclosed, hwrites⟩ :=
      Sink.start_writes hdir hcount run.segmentBytes run.created
    have hrun := Sink.Writes.run run.writes s images _ hwrites
    rw [hlimit, hclosed] at hrun
    rw [JournalRun.finish, hstart]
    exact hrun
  · have hlen : images.length = u32Max + 1 := by
      have hle := hdir.count
      rw [length_imageFiles] at hle
      omega
    obtain ⟨error, hstart⟩ := hdir.start_full (by rw [length_imageFiles, hlen])
      run.segmentBytes run.created
    rw [JournalRun.finish, hstart, hlen, Nat.sub_self, List.take_zero]
    refine ⟨by simp [imageFiles], ?_⟩
    simp only [reduceCtorEq, false_iff]
    omega

end Writer

end Bowst.Journal
