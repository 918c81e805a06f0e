/-
Bowst.Journal.Format — records of the journal (`bowst-journal/src/format.rs`).

A record is a header of 32 bytes and a payload. The producer writes the header
with zero checksums; the writer thread fills those in.
-/
import Bowst.Core.Fixed
import Bowst.Lib.Bytes

namespace Bowst.Journal

open Bowst.Lib
open Bowst.Core (Bytes)

/-- Record header length. -/
def recordHeaderLen : Nat := 32

/-- Largest payload a record may carry (16 MiB). -/
def maxPayload : Nat := 16 * 2 ^ 20

/-- What a record's payload is. -/
structure Kind where
  code : UInt16
  deriving DecidableEq, Repr

namespace Kind

/-- Records were dropped before this point. Payload: `u64` count. -/
def gap : Kind := ⟨0x0001⟩

/-- A session started. Payload: UTF-8 description. -/
def sessionStart : Kind := ⟨0x0002⟩

/-- A raw market-data message exactly as received. -/
def mdMessage : Kind := ⟨0x0100⟩

/-- A raw REST depth snapshot at the moment it was applied. Payload: instrument
ID (`u32`), then the response body. -/
def mdSnapshot : Kind := ⟨0x0101⟩

/-- A market-data status change. Payload: UTF-8 text. -/
def mdStatus : Kind := ⟨0x0102⟩

/-- The connection ended and every book was reset. No payload. -/
def mdReset : Kind := ⟨0x0103⟩

/-- Verification of one instrument's book started. Payload: instrument ID
(`u32`). -/
def mdVerifyStart : Kind := ⟨0x0104⟩

/-- A raw REST depth snapshot loaded into the verification book. Payload:
instrument ID (`u32`), then the response body. -/
def mdVerifySnapshot : Kind := ⟨0x0105⟩

end Kind

/-- A record's header fields. Times are nanoseconds. -/
structure RecordHeader where
  kind : Kind
  source : UInt16
  mono : UInt64
  wall : UInt64
  deriving DecidableEq, Repr

/-- `u16_at`, `u32_at` and `u64_at`: the integer of `width` bytes at `pos`, 0 if
the bytes end before it does. -/
def uintAt (width : Nat) (bytes : Bytes) (pos : Nat) : Nat :=
  if pos + width ≤ bytes.length then ofLe (slice bytes pos width) else 0

/-- The loop of the encoders: fields one after the other, each if it fits. -/
def putFields : List Bytes → Nat → Bytes → Bytes
  | [], _, out => out
  | field :: rest, pos, out =>
      putFields rest (pos + field.length)
        (if pos + field.length ≤ out.length then splice out pos field else out)

/-- The fields of a record header, with zero checksums. -/
def headerFields (header : RecordHeader) (payloadLen : Nat) : List Bytes :=
  [ toLe 2 header.kind.code.toNat, toLe 2 header.source.toNat, toLe 4 payloadLen,
    toLe 8 header.mono.toNat, toLe 8 header.wall.toNat, toLe 4 0, toLe 4 0 ]

/-- Writes a record header into `out`. -/
def encodeRecordHeader (header : RecordHeader) (payloadLen : Nat) (out : Bytes) : Bytes :=
  putFields (headerFields header payloadLen) 0 out

theorem length_putFields : ∀ (fields : List Bytes) (pos : Nat) (out : Bytes),
    (putFields fields pos out).length = out.length := by
  intro fields
  induction fields with
  | nil => intro pos out; rfl
  | cons field rest ih =>
      intro pos out
      rw [putFields, ih]
      split_ifs with hfits
      · exact length_splice hfits
      · rfl

/-- Fields that all fit are written as one. -/
theorem putFields_eq : ∀ (fields : List Bytes) (pos : Nat) (out : Bytes),
    pos + fields.flatten.length ≤ out.length →
      putFields fields pos out = splice out pos fields.flatten := by
  intro fields
  induction fields with
  | nil => intro pos out _; simp [putFields, splice]
  | cons field rest ih =>
      intro pos out h
      rw [List.flatten_cons, List.length_append] at h
      have hfits : pos + field.length ≤ out.length := by omega
      rw [putFields, if_pos hfits, ih _ _ (by rw [length_splice hfits]; omega),
        List.flatten_cons, splice_splice_next hfits]

theorem length_headerFields (header : RecordHeader) (payloadLen : Nat) :
    (headerFields header payloadLen).flatten.length = recordHeaderLen := by
  simp [headerFields, recordHeaderLen]

/-- A header's bytes. -/
def headerBytes (header : RecordHeader) (payloadLen : Nat) : Bytes :=
  (headerFields header payloadLen).flatten

theorem encodeRecordHeader_eq (header : RecordHeader) (payloadLen : Nat) {out : Bytes}
    (h : out.length = recordHeaderLen) :
    encodeRecordHeader header payloadLen out = headerBytes header payloadLen := by
  have hlen := length_headerFields header payloadLen
  rw [encodeRecordHeader, putFields_eq _ _ _ (by omega), headerBytes, splice, hlen, ← h]
  simp

/-- The kind of an encoded record. -/
theorem uintAt_kind (header : RecordHeader) (payloadLen : Nat) (payload : Bytes) :
    uintAt 2 (headerBytes header payloadLen ++ payload) 0 = header.kind.code.toNat := by
  have hlen := length_headerFields header payloadLen
  have hlt : header.kind.code.toNat < 256 ^ 2 := header.kind.code.toNat_lt
  have hfits : 0 + 2 ≤ (headerBytes header payloadLen ++ payload).length := by
    rw [List.length_append, headerBytes, hlen, recordHeaderLen]
    omega
  have hslice : slice (headerBytes header payloadLen ++ payload) 0 2 =
      toLe 2 header.kind.code.toNat := by
    simp [slice, headerBytes, headerFields]
  rw [uintAt, if_pos hfits, hslice, ofLe_toLe, Nat.mod_eq_of_lt hlt]

/-- An integer that is a whole payload. -/
theorem uintAt_payload (header : RecordHeader) (payloadLen width n : Nat)
    (hn : n < 256 ^ width) :
    uintAt width (headerBytes header payloadLen ++ toLe width n) recordHeaderLen = n := by
  have hlen : (headerBytes header payloadLen).length = recordHeaderLen :=
    length_headerFields header payloadLen
  have hfits : recordHeaderLen + width ≤ (headerBytes header payloadLen ++ toLe width n).length := by
    rw [List.length_append, hlen, length_toLe]
  have hslice : slice (headerBytes header payloadLen ++ toLe width n) recordHeaderLen width =
      toLe width n := by
    rw [slice, ← hlen, List.drop_left, List.take_of_length_le (by rw [length_toLe])]
  rw [uintAt, if_pos hfits, hslice, ofLe_toLe, Nat.mod_eq_of_lt hn]

/-! ## Checksums -/

/-- Byte offset of the record checksum inside a record header. -/
def crcAt : Nat := 24

/-- Byte offset of the header checksum inside a record header. -/
def headerCrcAt : Nat := 28

/-- `get(..n)`, or nothing if there are fewer bytes. -/
def getTo (bytes : Bytes) (n : Nat) : Bytes := if n ≤ bytes.length then bytes.take n else []

/-- `get(n..)`, or nothing if there are fewer bytes. -/
def getFrom (bytes : Bytes) (n : Nat) : Bytes := if n ≤ bytes.length then bytes.drop n else []

/-- Malformed journal data. -/
inductive FormatError where
  | badFileHeader
  | checksum (offset : Nat)
  | tooLarge (offset len : Nat)
  | headerChecksum (offset : Nat)
  deriving DecidableEq, Repr

/-- Result of decoding the record at the start of a buffer. -/
inductive Decoded where
  | record (header : RecordHeader) (len : Nat)
  | incomplete
  deriving DecidableEq, Repr

section Checksum

-- `crc` is what the hasher of `crc32fast` computes of the bytes given to it.
variable (crc : Bytes → UInt32)

/-- The checksum of a complete record, without the checksum fields. -/
def recordChecksum (record : Bytes) : UInt32 :=
  crc (getTo record crcAt ++ getFrom record recordHeaderLen)

/-- The checksum of the header before its own checksum, from its first 24 bytes
and the record checksum. -/
def headerChecksum (first24 : Bytes) (recordCrc : UInt32) : UInt32 :=
  crc (getTo first24 crcAt ++ toLe 4 recordCrc.toNat)

/-- `seal`: stores both checksums of a complete record. -/
def sealRecord (record : Bytes) : Bytes :=
  let recordCrc := recordChecksum crc record
  let headerCrc := headerChecksum crc record recordCrc
  let record :=
    if headerCrcAt ≤ record.length then splice record crcAt (toLe 4 recordCrc.toNat) else record
  if recordHeaderLen ≤ record.length then splice record headerCrcAt (toLe 4 headerCrc.toNat)
  else record

/-- Decodes and verifies the record at the start of `bytes`. -/
def decodeRecord (bytes : Bytes) (offset : Nat) : Except FormatError Decoded :=
  if bytes.length < recordHeaderLen then .ok .incomplete
  else if headerChecksum crc bytes (UInt32.ofNat (uintAt 4 bytes crcAt)) ≠
      UInt32.ofNat (uintAt 4 bytes headerCrcAt) then
    .error (.headerChecksum offset)
  else
    let len := uintAt 4 bytes 4
    if len > maxPayload then .error (.tooLarge offset len)
    else
      let total := recordHeaderLen + len
      if bytes.length < total then .ok .incomplete
      else
        let record := bytes.take total
        if recordChecksum crc record ≠ UInt32.ofNat (uintAt 4 record crcAt) then
          .error (.checksum offset)
        else
          .ok (.record
            { kind := ⟨UInt16.ofNat (uintAt 2 record 0)⟩
              source := UInt16.ofNat (uintAt 2 record 2)
              mono := UInt64.ofNat (uintAt 8 record 8)
              wall := UInt64.ofNat (uintAt 8 record 16) } total)

end Checksum

/-! ## File headers -/

/-- File magic. -/
def magic : Bytes := ascii "BOWSTJNL"

/-- Current format version. -/
def version : Nat := 1

/-- File header length. -/
def fileHeaderLen : Nat := 32

/-- Encodes a segment file header. -/
def encodeFileHeader (segment : Nat) (created : UInt64) : Bytes :=
  putFields [magic, toLe 4 version, toLe 4 segment, toLe 8 created.toNat] 0
    (List.replicate fileHeaderLen 0)

/-- Decodes a segment file header, returning its segment index. -/
def decodeFileHeader (bytes : Bytes) : Except FormatError Nat :=
  if bytes.length < fileHeaderLen ∨ bytes.take 8 ≠ magic ∨ uintAt 4 bytes 8 ≠ version then
    .error .badFileHeader
  else .ok (uintAt 4 bytes 12)

end Bowst.Journal
