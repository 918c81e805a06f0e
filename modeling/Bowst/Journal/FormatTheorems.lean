/-
Bowst.Journal.FormatTheorems — sealed records and what decoding makes of them.

`decodeRecord_eq` reads the decoder off a buffer cut into its four pieces: the 24
bytes under both checksums, the record checksum, the header checksum, and the
rest. Every buffer with room for a header is such pieces, and a sealed record is
the pieces that the decoder accepts; everything below follows from that equation.

  §1 Fields  — the first 24 bytes and the fields they hold.
  §2 Pieces  — the decoder and the encoders over the four pieces.
  §3 Inverse — encoding and decoding are inverses, for any checksum.
  §4 Errors  — one changed byte is found, for the CRC-32.
-/
import Bowst.Journal.Reader
import Bowst.Lib.Crc32

namespace Bowst.Journal

open Bowst.Lib
open Bowst.Core (Bytes)

/-! ## §1 Fields -/

/-- An integer inside the first of two pieces. -/
theorem uintAt_append_left {width pos : Nat} {xs : Bytes} (h : pos + width ≤ xs.length)
    (ys : Bytes) : uintAt width (xs ++ ys) pos = uintAt width xs pos := by
  have hall : pos + width ≤ (xs ++ ys).length := by rw [List.length_append]; omega
  rw [uintAt, uintAt, if_pos h, if_pos hall, slice_append_left h]

/-- An integer behind what stands before it. -/
theorem uintAt_append_length {width pos : Nat} {xs ys : Bytes} (hpos : xs.length = pos)
    (hwidth : ys.length = width) (zs : Bytes) : uintAt width (xs ++ (ys ++ zs)) pos = ofLe ys := by
  subst hpos hwidth
  have hall : xs.length + ys.length ≤ (xs ++ (ys ++ zs)).length := by simp
  rw [uintAt, if_pos hall, slice_append_length]

/-- An integer field that was written at a position. -/
theorem uintAt_toLe {width pos n : Nat} {xs : Bytes} (hpos : xs.length = pos)
    (hn : n < 256 ^ width) (zs : Bytes) : uintAt width (xs ++ (toLe width n ++ zs)) pos = n := by
  rw [uintAt_append_length hpos (length_toLe width n), ofLe_toLe, Nat.mod_eq_of_lt hn]

/-- The first 24 bytes of a header: what both checksums cover. -/
def leadBytes (header : RecordHeader) (payloadLen : Nat) : Bytes :=
  toLe 2 header.kind.code.toNat ++ (toLe 2 header.source.toNat ++ (toLe 4 payloadLen ++
    (toLe 8 header.mono.toNat ++ toLe 8 header.wall.toNat)))

/-- The header that the first 24 bytes hold. -/
def leadHeader (lead : Bytes) : RecordHeader where
  kind := ⟨UInt16.ofNat (uintAt 2 lead 0)⟩
  source := UInt16.ofNat (uintAt 2 lead 2)
  mono := UInt64.ofNat (uintAt 8 lead 8)
  wall := UInt64.ofNat (uintAt 8 lead 16)

@[simp] theorem length_leadBytes (header : RecordHeader) (payloadLen : Nat) :
    (leadBytes header payloadLen).length = crcAt := by
  simp [leadBytes, crcAt]

theorem headerBytes_eq (header : RecordHeader) (payloadLen : Nat) :
    headerBytes header payloadLen = leadBytes header payloadLen ++ (toLe 4 0 ++ toLe 4 0) := by
  simp [headerBytes, headerFields, leadBytes]

theorem leadHeader_append {lead : Bytes} (h : lead.length = crcAt) (rest : Bytes) :
    leadHeader (lead ++ rest) = leadHeader lead := by
  unfold crcAt at h
  simp only [leadHeader]
  rw [uintAt_append_left (by omega), uintAt_append_left (by omega), uintAt_append_left (by omega),
    uintAt_append_left (by omega)]

/-- The fields read back. -/
theorem leadHeader_leadBytes (header : RecordHeader) (payloadLen : Nat) :
    leadHeader (leadBytes header payloadLen) = header := by
  have hkind : uintAt 2 (leadBytes header payloadLen) 0 = header.kind.code.toNat := by
    rw [leadBytes, ← List.nil_append (toLe 2 _ ++ _)]
    exact uintAt_toLe rfl header.kind.code.toNat_lt _
  have hsource : uintAt 2 (leadBytes header payloadLen) 2 = header.source.toNat :=
    uintAt_toLe (by simp) header.source.toNat_lt _
  have hmono : uintAt 8 (leadBytes header payloadLen) 8 = header.mono.toNat := by
    rw [leadBytes, ← List.append_assoc, ← List.append_assoc]
    exact uintAt_toLe (by simp) header.mono.toNat_lt _
  have hwall : uintAt 8 (leadBytes header payloadLen) 16 = header.wall.toNat := by
    rw [leadBytes, ← List.append_assoc, ← List.append_assoc, ← List.append_assoc,
      ← List.append_nil (toLe 8 header.wall.toNat)]
    exact uintAt_toLe (by simp) header.wall.toNat_lt _
  rw [leadHeader, hkind, hsource, hmono, hwall]
  simp

theorem uintAt_leadBytes_len (header : RecordHeader) {payloadLen : Nat} (h : payloadLen < 2 ^ 32) :
    uintAt 4 (leadBytes header payloadLen) 4 = payloadLen := by
  rw [leadBytes, ← List.append_assoc]
  exact uintAt_toLe (by simp) h _

/-- A field of the right width, written back. -/
theorem toLe_uintAt {width pos : Nat} {bytes : Bytes} (h : pos + width ≤ bytes.length) :
    toLe width (uintAt width bytes pos) = slice bytes pos width := by
  rw [uintAt, if_pos h]
  nth_rewrite 1 [← length_slice h]
  exact toLe_ofLe _

theorem uintAt_lt (width : Nat) (bytes : Bytes) (pos : Nat) : uintAt width bytes pos < 256 ^ width := by
  unfold uintAt
  split_ifs with h
  · have hlt := ofLe_lt (slice bytes pos width)
    rwa [length_slice h] at hlt
  · exact Nat.pow_pos (by decide)

/-- The first 24 bytes are the fields they hold and nothing else. -/
theorem leadBytes_leadHeader {lead : Bytes} (h : lead.length = crcAt) :
    leadBytes (leadHeader lead) (uintAt 4 lead 4) = lead := by
  unfold crcAt at h
  have hkind : (UInt16.ofNat (uintAt 2 lead 0)).toNat = uintAt 2 lead 0 :=
    UInt16.toNat_ofNat_of_lt' (uintAt_lt 2 lead 0)
  have hsource : (UInt16.ofNat (uintAt 2 lead 2)).toNat = uintAt 2 lead 2 :=
    UInt16.toNat_ofNat_of_lt' (uintAt_lt 2 lead 2)
  have hmono : (UInt64.ofNat (uintAt 8 lead 8)).toNat = uintAt 8 lead 8 :=
    UInt64.toNat_ofNat_of_lt' (uintAt_lt 8 lead 8)
  have hwall : (UInt64.ofNat (uintAt 8 lead 16)).toNat = uintAt 8 lead 16 :=
    UInt64.toNat_ofNat_of_lt' (uintAt_lt 8 lead 16)
  simp only [leadBytes, leadHeader]
  rw [hkind, hsource, hmono, hwall, toLe_uintAt (by omega), toLe_uintAt (by omega),
    toLe_uintAt (by omega), toLe_uintAt (by omega), toLe_uintAt (by omega)]
  rw [slice_append_slice lead 8 8 8, slice_append_slice lead 4 4 16, slice_append_slice lead 2 2 20,
    slice_append_slice lead 0 2 22, slice, List.drop_zero, List.take_of_length_le (by omega)]

/-! ## §2 Pieces -/

section Pieces

variable (crc : Bytes → UInt32) {lead c hc : Bytes}

theorem getTo_append (h : lead.length = crcAt) (rest : Bytes) : getTo (lead ++ rest) crcAt = lead := by
  rw [getTo, if_pos (by rw [List.length_append]; omega), ← h, List.take_left]

theorem getFrom_append {front : Bytes} (h : front.length = recordHeaderLen) (rest : Bytes) :
    getFrom (front ++ rest) recordHeaderLen = rest := by
  rw [getFrom, if_pos (by rw [List.length_append]; omega), ← h, List.drop_left]

theorem headerChecksum_eq (hlead : lead.length = crcAt) (rest : Bytes) (recordCrc : UInt32) :
    headerChecksum crc (lead ++ rest) recordCrc = crc (lead ++ toLe 4 recordCrc.toNat) := by
  rw [headerChecksum, getTo_append hlead]

theorem length_front (hlead : lead.length = crcAt) (hc4 : c.length = 4) (hhc4 : hc.length = 4) :
    (lead ++ (c ++ hc)).length = recordHeaderLen := by
  rw [List.length_append, List.length_append, hlead, hc4, hhc4]
  rfl

theorem recordChecksum_eq (hlead : lead.length = crcAt) (hc4 : c.length = 4) (hhc4 : hc.length = 4)
    (rest : Bytes) : recordChecksum crc (lead ++ (c ++ (hc ++ rest))) = crc (lead ++ rest) := by
  have hpieces : lead ++ (c ++ (hc ++ rest)) = (lead ++ (c ++ hc)) ++ rest := by simp
  have hfrom : getFrom (lead ++ (c ++ (hc ++ rest))) recordHeaderLen = rest := by
    rw [hpieces, getFrom_append (length_front hlead hc4 hhc4)]
  rw [recordChecksum, getTo_append hlead, hfrom]

/-- A checksum field is the integer it spells. -/
theorem toLe_checksum {bytes : Bytes} (h : bytes.length = 4) :
    toLe 4 (UInt32.ofNat (ofLe bytes)).toNat = bytes := by
  have hlt : ofLe bytes < 2 ^ 32 := by
    have hbound := ofLe_lt bytes
    rwa [h] at hbound
  have hback := toLe_ofLe bytes
  rw [h] at hback
  rw [UInt32.toNat_ofNat_of_lt' hlt, hback]

theorem checksum_toLe (n : UInt32) : UInt32.ofNat (ofLe (toLe 4 n.toNat)) = n := by
  have hlt : n.toNat < 256 ^ 4 := n.toNat_lt
  rw [ofLe_toLe, Nat.mod_eq_of_lt hlt, UInt32.ofNat_toNat]

/-- The decoder on the four pieces of a buffer. -/
theorem decodeRecord_eq (hlead : lead.length = crcAt) (hc4 : c.length = 4) (hhc4 : hc.length = 4)
    (rest : Bytes) (offset : Nat) : decodeRecord crc (lead ++ (c ++ (hc ++ rest))) offset =
      if crc (lead ++ c) ≠ UInt32.ofNat (ofLe hc) then .error (.headerChecksum offset)
      else if uintAt 4 lead 4 > maxPayload then .error (.tooLarge offset (uintAt 4 lead 4))
      else if rest.length < uintAt 4 lead 4 then .ok .incomplete
      else if crc (lead ++ rest.take (uintAt 4 lead 4)) ≠ UInt32.ofNat (ofLe c) then
        .error (.checksum offset)
      else .ok (.record (leadHeader lead) (recordHeaderLen + uintAt 4 lead 4)) := by
  have hfront := length_front hlead hc4 hhc4
  have hall : (lead ++ (c ++ (hc ++ rest))).length = recordHeaderLen + rest.length := by
    rw [← hfront]; simp; omega
  have hlen : uintAt 4 (lead ++ (c ++ (hc ++ rest))) 4 = uintAt 4 lead 4 :=
    uintAt_append_left (by rw [hlead]; decide) _
  have hcrc : uintAt 4 (lead ++ (c ++ (hc ++ rest))) crcAt = ofLe c :=
    uintAt_append_length hlead hc4 _
  have hheader : uintAt 4 (lead ++ (c ++ (hc ++ rest))) headerCrcAt = ofLe hc := by
    rw [← List.append_assoc]
    exact uintAt_append_length (by rw [List.length_append, hlead, hc4]; rfl) hhc4 _
  have htake : (lead ++ (c ++ (hc ++ rest))).take (recordHeaderLen + uintAt 4 lead 4) =
      lead ++ (c ++ (hc ++ rest.take (uintAt 4 lead 4))) := by
    have hpieces : lead ++ (c ++ (hc ++ rest)) = (lead ++ (c ++ hc)) ++ rest := by simp
    rw [hpieces, ← hfront, List.take_length_add_append]
    simp
  have hcrc' : uintAt 4 (lead ++ (c ++ (hc ++ rest.take (uintAt 4 lead 4)))) crcAt = ofLe c :=
    uintAt_append_length hlead hc4 _
  have hfields := leadHeader_append hlead (c ++ (hc ++ rest.take (uintAt 4 lead 4)))
  rw [decodeRecord, hall, if_neg (by omega), hcrc, hheader, headerChecksum_eq crc hlead,
    toLe_checksum hc4]
  simp only [hlen, htake, hcrc', recordChecksum_eq crc hlead hc4 hhc4, Nat.add_lt_add_iff_left]
  rw [← hfields]
  rfl

/-- The pieces of a record with its checksums. -/
def sealedPieces (lead payload : Bytes) : Bytes :=
  let recordCrc := toLe 4 (crc (lead ++ payload)).toNat
  lead ++ (recordCrc ++ (toLe 4 (crc (lead ++ recordCrc)).toNat ++ payload))

/-- Storing the checksums of a record. -/
theorem sealRecord_eq (hlead : lead.length = crcAt) (hc4 : c.length = 4) (hhc4 : hc.length = 4)
    (payload : Bytes) :
    sealRecord crc (lead ++ (c ++ (hc ++ payload))) = sealedPieces crc lead payload := by
  have hroom : headerCrcAt ≤ (lead ++ (c ++ (hc ++ payload))).length := by
    simp [hlead, hc4, crcAt, headerCrcAt]
    omega
  have hroom' : recordHeaderLen ≤
      (lead ++ (toLe 4 (crc (lead ++ payload)).toNat ++ (hc ++ payload))).length := by
    simp [hlead, hhc4, crcAt, recordHeaderLen]
    omega
  have hcrc : splice (lead ++ (c ++ (hc ++ payload))) crcAt (toLe 4 (crc (lead ++ payload)).toNat) =
      lead ++ (toLe 4 (crc (lead ++ payload)).toNat ++ (hc ++ payload)) := by
    rw [← hlead]
    exact splice_append (by simp [hc4]) _ _
  have hheader : ∀ recordCrc headerCrc : Bytes, recordCrc.length = 4 → headerCrc.length = 4 →
      splice (lead ++ (recordCrc ++ (hc ++ payload))) headerCrcAt headerCrc =
        lead ++ (recordCrc ++ (headerCrc ++ payload)) := by
    intro recordCrc headerCrc h1 h2
    have hat : (lead ++ recordCrc).length = headerCrcAt := by
      rw [List.length_append, hlead, h1]
      rfl
    rw [← List.append_assoc, ← hat, splice_append (by rw [h2, hhc4]), List.append_assoc]
  simp only [sealRecord, recordChecksum_eq crc hlead hc4 hhc4, headerChecksum_eq crc hlead]
  rw [if_pos hroom, hcrc, if_pos hroom', hheader _ _ (length_toLe ..) (length_toLe ..)]
  rfl

/-- What the sink writes for a record. -/
theorem emit_eq (hlead : lead.length = crcAt) (hc4 : c.length = 4) (hhc4 : hc.length = 4)
    (payload : Bytes) :
    Sink.emit crc (lead ++ (c ++ (hc ++ payload))) = sealedPieces crc lead payload := by
  have hpieces : lead ++ (c ++ (hc ++ payload)) = (lead ++ (c ++ hc)) ++ payload := by simp
  have hfrom : getFrom (lead ++ (c ++ (hc ++ payload))) recordHeaderLen = payload := by
    rw [hpieces, getFrom_append (length_front hlead hc4 hhc4)]
  simp [Sink.emit, sealedPieces, getTo_append hlead, hfrom, recordChecksum_eq crc hlead hc4 hhc4,
    headerChecksum_eq crc hlead]

end Pieces

/-! ## §3 Inverse -/

/-- A header to try things on. -/
def sampleHeader : RecordHeader := ⟨Kind.mdMessage, 7, 11, 22⟩

/-- A record in the ring: a header with zero checksums, and the payload. -/
def ringRecord (header : RecordHeader) (payload : Bytes) : Bytes :=
  encodeRecordHeader header payload.length (List.replicate recordHeaderLen 0) ++ payload

/-- A record as it stands in a file. -/
def sealedRecord (crc : Bytes → UInt32) (header : RecordHeader) (payload : Bytes) : Bytes :=
  sealRecord crc (ringRecord header payload)

theorem ringRecord_eq (header : RecordHeader) (payload : Bytes) :
    ringRecord header payload =
      leadBytes header payload.length ++ (toLe 4 0 ++ (toLe 4 0 ++ payload)) := by
  rw [ringRecord, encodeRecordHeader_eq _ _ (List.length_replicate ..), headerBytes_eq]
  simp

section Inverse

variable (crc : Bytes → UInt32)

/-- A write that leaves no error behind put its record into the open segment or
into a new one. -/
theorem Sink.write_eq_put (s : Sink) (record : Bytes) (now : UInt64)
    (herror : (s.write crc record now).error = none) :
    ∃ s', (s' = s ∨ s' = s.rotate now) ∧ s.write crc record now = s'.put crc record := by
  unfold Sink.write at herror ⊢
  by_cases hfailed : s.error.isSome
  · rw [if_pos hfailed] at herror
    simp [Sink.lose] at herror
    simp [herror] at hfailed
  · rw [if_neg hfailed] at herror ⊢
    have hroom : ∀ s' : Sink, (if s'.error.isSome then s'.lose else s'.put crc record).error = none →
        (if s'.error.isSome then s'.lose else s'.put crc record) = s'.put crc record := by
      intro s' herror'
      by_cases hfailed' : s'.error.isSome
      · rw [if_pos hfailed'] at herror'
        simp [Sink.lose] at herror'
        simp [herror'] at hfailed'
      · rw [if_neg hfailed']
    refine ⟨if s.segment.bytes ≥ s.segmentBytes then s.rotate now else s, ?_, hroom _ herror⟩
    split_ifs <;> simp

theorem sealedRecord_eq (header : RecordHeader) (payload : Bytes) :
    sealedRecord crc header payload = sealedPieces crc (leadBytes header payload.length) payload := by
  rw [sealedRecord, ringRecord_eq]
  exact sealRecord_eq crc (length_leadBytes ..) (length_toLe ..) (length_toLe ..) payload

theorem emit_ringRecord (header : RecordHeader) (payload : Bytes) :
    Sink.emit crc (ringRecord header payload) = sealedRecord crc header payload := by
  rw [sealedRecord_eq, ringRecord_eq]
  exact emit_eq crc (length_leadBytes ..) (length_toLe ..) (length_toLe ..) payload

theorem length_sealedRecord (header : RecordHeader) (payload : Bytes) :
    (sealedRecord crc header payload).length = recordHeaderLen + payload.length := by
  simp [sealedRecord_eq, sealedPieces, crcAt, recordHeaderLen]
  omega

/-- The payload stands behind the header. -/
theorem sealedRecord_payload (header : RecordHeader) (payload : Bytes) :
    ∃ front, front.length = recordHeaderLen ∧ sealedRecord crc header payload = front ++ payload := by
  have hlead := length_leadBytes header payload.length
  rw [sealedRecord_eq]
  generalize leadBytes header payload.length = lead at hlead
  refine ⟨lead ++ (toLe 4 (crc (lead ++ payload)).toNat ++
    toLe 4 (crc (lead ++ toLe 4 (crc (lead ++ payload)).toNat)).toNat), ?_, ?_⟩
  · exact length_front hlead (length_toLe ..) (length_toLe ..)
  · simp [sealedPieces]

/-- The length field of a record that may be written. -/
theorem uintAt_lead_payload (header : RecordHeader) {payload : Bytes}
    (hmax : payload.length ≤ maxPayload) :
    uintAt 4 (leadBytes header payload.length) 4 = payload.length :=
  uintAt_leadBytes_len header (Nat.lt_of_le_of_lt hmax (by decide))

/-- A sealed record decodes to itself, whatever follows. -/
theorem decodeRecord_sealed (header : RecordHeader) {payload : Bytes}
    (hmax : payload.length ≤ maxPayload) (trailing : Bytes) (offset : Nat) :
    decodeRecord crc (sealedRecord crc header payload ++ trailing) offset =
      .ok (.record header (recordHeaderLen + payload.length)) := by
  have hlen := uintAt_lead_payload header hmax
  simp only [sealedRecord_eq, sealedPieces, List.append_assoc]
  rw [decodeRecord_eq crc (length_leadBytes ..) (length_toLe ..) (length_toLe ..), hlen,
    checksum_toLe, checksum_toLe, leadHeader_leadBytes, List.take_left]
  simp [hmax]

/-- A sealed record that is cut off is incomplete. -/
theorem decodeRecord_cut (header : RecordHeader) {payload : Bytes}
    (hmax : payload.length ≤ maxPayload) {cut : Nat}
    (hcut : cut < (sealedRecord crc header payload).length) (offset : Nat) :
    decodeRecord crc ((sealedRecord crc header payload).take cut) offset = .ok .incomplete := by
  have hlen := uintAt_lead_payload header hmax
  rw [length_sealedRecord] at hcut
  by_cases hshort : cut < recordHeaderLen
  · have htake : ((sealedRecord crc header payload).take cut).length < recordHeaderLen := by
      rw [List.length_take]
      omega
    rw [decodeRecord, if_pos htake]
  · -- The header is whole; the payload is not.
    obtain ⟨k, rfl⟩ : ∃ k, cut = recordHeaderLen + k := ⟨cut - recordHeaderLen, by omega⟩
    have htake : ∀ c hc : Bytes, c.length = 4 → hc.length = 4 →
        (leadBytes header payload.length ++ (c ++ (hc ++ payload))).take (recordHeaderLen + k) =
          leadBytes header payload.length ++ (c ++ (hc ++ payload.take k)) := by
      intro c hc hc4 hhc4
      have hfront := length_front (length_leadBytes header payload.length) hc4 hhc4
      have hpieces : leadBytes header payload.length ++ (c ++ (hc ++ payload)) =
          (leadBytes header payload.length ++ (c ++ hc)) ++ payload := by simp
      rw [hpieces, ← hfront, List.take_length_add_append]
      simp
    rw [sealedRecord_eq, sealedPieces, htake _ _ (length_toLe ..) (length_toLe ..),
      decodeRecord_eq crc (length_leadBytes ..) (length_toLe ..) (length_toLe ..), hlen,
      checksum_toLe]
    have hrest : (payload.take k).length < payload.length := by
      rw [List.length_take]
      omega
    rw [if_neg (not_not.mpr rfl), if_neg (Nat.not_lt.mpr hmax), if_pos hrest]

/-- A buffer with room for a header is four pieces. -/
theorem exists_pieces {bytes : Bytes} (h : recordHeaderLen ≤ bytes.length) :
    ∃ lead c hc rest, bytes = lead ++ (c ++ (hc ++ rest)) ∧ lead.length = crcAt ∧ c.length = 4 ∧
      hc.length = 4 := by
  unfold recordHeaderLen at h
  refine ⟨bytes.take 24, (bytes.drop 24).take 4, ((bytes.drop 24).drop 4).take 4,
    ((bytes.drop 24).drop 4).drop 4, ?_, ?_, ?_, ?_⟩
  · rw [List.take_append_drop, List.take_append_drop, List.take_append_drop]
  · simp [crcAt]; omega
  · simp; omega
  · simp; omega

/-- What decodes as a record is the sealed encoding of that record. -/
theorem decodeRecord_record {bytes : Bytes} {offset len : Nat} {header : RecordHeader}
    (h : decodeRecord crc bytes offset = .ok (.record header len)) :
    recordHeaderLen ≤ len ∧ len ≤ bytes.length ∧ len - recordHeaderLen ≤ maxPayload ∧
      bytes.take len =
        sealedRecord crc header (slice bytes recordHeaderLen (len - recordHeaderLen)) := by
  by_cases hroom : bytes.length < recordHeaderLen
  · rw [decodeRecord, if_pos hroom] at h
    cases h
  obtain ⟨lead, c, hc, rest, rfl, hlead, hc4, hhc4⟩ := exists_pieces (Nat.not_lt.mp hroom)
  have hfront := length_front hlead hc4 hhc4
  have hpieces : lead ++ (c ++ (hc ++ rest)) = (lead ++ (c ++ hc)) ++ rest := by simp
  rw [decodeRecord_eq crc hlead hc4 hhc4] at h
  split_ifs at h with hheader hlarge hshort hcrc
  · simp at h
  simp only [Except.ok.injEq, Decoded.record.injEq] at h
  obtain ⟨rfl, rfl⟩ := h
  -- The payload, and the two checksums as bytes.
  have hpayload : slice (lead ++ (c ++ (hc ++ rest))) recordHeaderLen (uintAt 4 lead 4) =
      rest.take (uintAt 4 lead 4) := by
    rw [slice, hpieces, ← hfront, List.drop_left]
  have hlen : (rest.take (uintAt 4 lead 4)).length = uintAt 4 lead 4 := by
    rw [List.length_take]
    omega
  have hc' : toLe 4 (crc (lead ++ rest.take (uintAt 4 lead 4))).toNat = c := by
    rw [not_not.mp hcrc, toLe_checksum hc4]
  have hhc' : toLe 4 (crc (lead ++ c)).toNat = hc := by
    rw [not_not.mp hheader, toLe_checksum hhc4]
  refine ⟨Nat.le_add_right .., ?_, by omega, ?_⟩
  · rw [hpieces, List.length_append, hfront]
    omega
  · rw [Nat.add_sub_cancel_left, hpayload, sealedRecord_eq, hlen, leadBytes_leadHeader hlead,
      sealedPieces]
    simp only [hc', hhc']
    rw [hpieces, ← hfront, List.take_length_add_append]
    simp

/-- Encoding and decoding are inverses: a sealed record decodes to its header and
length whatever follows it; cut off anywhere, it is incomplete; it is what the sink
adds to its open segment for the record in the ring; and whatever decodes as a
record is the sealed encoding of the header and payload found in it. -/
theorem decodeRecord_inverse :
    (∀ (header : RecordHeader) (payload : Bytes), payload.length ≤ maxPayload →
      (∀ trailing offset, decodeRecord crc (sealedRecord crc header payload ++ trailing) offset =
        .ok (.record header (sealedRecord crc header payload).length)) ∧
      (∀ cut offset, cut < (sealedRecord crc header payload).length →
        decodeRecord crc ((sealedRecord crc header payload).take cut) offset = .ok .incomplete) ∧
      ∀ (s : Sink) now, (s.write crc (ringRecord header payload) now).error = none →
        ∃ s', (s' = s ∨ s' = s.rotate now) ∧
          (s.write crc (ringRecord header payload) now).files =
            s'.closed ++ [⟨s'.segment.name, s'.segment.out ++ sealedRecord crc header payload⟩]) ∧
    ∀ (bytes : Bytes) (offset : Nat) (header : RecordHeader) (len : Nat),
      decodeRecord crc bytes offset = .ok (.record header len) →
        len ≤ bytes.length ∧
        bytes.take len = sealedRecord crc header (slice bytes recordHeaderLen (len - recordHeaderLen)) := by
  refine ⟨fun header payload hmax => ⟨?_, ?_, ?_⟩, ?_⟩
  · intro trailing offset
    rw [decodeRecord_sealed crc header hmax, length_sealedRecord]
  · intro cut offset hcut
    exact decodeRecord_cut crc header hmax hcut offset
  · intro s now herror
    obtain ⟨s', hs', heq⟩ := Sink.write_eq_put crc s (ringRecord header payload) now herror
    refine ⟨s', hs', ?_⟩
    rw [heq, Sink.files, Sink.put, emit_ringRecord]
  · intro bytes offset header len h
    obtain ⟨-, hlen, -, htake⟩ := decodeRecord_record crc h
    exact ⟨hlen, htake⟩

theorem decodeRecord_inverse_sample :
    decodeRecord crc32 (sealedRecord crc32 sampleHeader [1, 2, 3] ++ [9]) 0 =
        .ok (.record sampleHeader 35) ∧
      decodeRecord crc32 ((sealedRecord crc32 sampleHeader [1, 2, 3]).take 34) 0 = .ok .incomplete := by
  have hlen := length_sealedRecord crc32 sampleHeader [1, 2, 3]
  obtain ⟨hrecord, hcut, -⟩ := (decodeRecord_inverse crc32).1 sampleHeader [1, 2, 3] (by decide)
  have hwhole := hrecord [9] 0
  rw [hlen] at hwhole
  exact ⟨hwhole, hcut 34 0 (by rw [hlen]; decide)⟩

end Inverse

/-! ## §4 Errors -/

/-- A sealed record with one byte changed is not a record and not a part of one. -/
theorem decodeRecord_changed (header : RecordHeader) {payload : Bytes}
    (hmax : payload.length ≤ maxPayload) {record : Bytes}
    (hchanged : Changed (sealedRecord crc32 header payload) record) (trailing : Bytes)
    (offset : Nat) : ∃ error, decodeRecord crc32 (record ++ trailing) offset = .error error := by
  have hlead := length_leadBytes header payload.length
  have hlen := uintAt_lead_payload header hmax
  rw [sealedRecord_eq, sealedPieces] at hchanged
  generalize leadBytes header payload.length = lead at hlead hlen hchanged
  rcases hchanged.of_append with ⟨lead', hlead', rfl⟩ | ⟨rest, hrest, rfl⟩
  · -- Under the header checksum.
    refine ⟨.headerChecksum offset, ?_⟩
    simp only [List.append_assoc]
    rw [decodeRecord_eq crc32 (hlead'.length_eq.trans hlead) (length_toLe ..) (length_toLe ..),
      checksum_toLe, if_pos (crc32_ne (hlead'.append_right _))]
  rcases hrest.of_append with ⟨c', hc', rfl⟩ | ⟨rest', hrest', rfl⟩
  · -- The record checksum is under the header checksum too.
    refine ⟨.headerChecksum offset, ?_⟩
    simp only [List.append_assoc]
    rw [decodeRecord_eq crc32 hlead (hc'.length_eq.trans (length_toLe ..)) (length_toLe ..),
      checksum_toLe, if_pos (crc32_ne (hc'.append_left _))]
  rcases hrest'.of_append with ⟨hc', hhc', rfl⟩ | ⟨payload', hpayload, rfl⟩
  · -- The header checksum itself.
    have hlen4 : hc'.length = 4 := hhc'.length_eq.trans (length_toLe ..)
    refine ⟨.headerChecksum offset, ?_⟩
    simp only [List.append_assoc]
    rw [decodeRecord_eq crc32 hlead (length_toLe ..) hlen4, if_pos]
    intro heq
    rw [heq, toLe_checksum hlen4] at hhc'
    exact hhc'.ne rfl
  · -- The payload, under the record checksum; the header is intact.
    refine ⟨.checksum offset, ?_⟩
    simp only [List.append_assoc]
    rw [decodeRecord_eq crc32 hlead (length_toLe ..) (length_toLe ..), hlen, checksum_toLe,
      checksum_toLe, ← hpayload.length_eq, List.take_left, if_neg (not_not.mpr rfl),
      if_neg (by rw [hpayload.length_eq]; omega), if_neg (by simp),
      if_pos (crc32_ne (hpayload.append_left _))]

/-- Every single bit of a sealed record is covered: inverting it makes decoding
fail, whatever follows the record. -/
theorem decodeRecord_flipBit (header : RecordHeader) (payload : Bytes)
    (hmax : payload.length ≤ maxPayload) (trailing : Bytes) (offset i bit : Nat)
    (hi : i < (sealedRecord crc32 header payload).length) (hbit : bit < 8) :
    ∃ error, decodeRecord crc32 (flipBit (sealedRecord crc32 header payload) i bit ++ trailing)
      offset = .error error :=
  decodeRecord_changed header hmax (flipBit_changed hi hbit) trailing offset

theorem decodeRecord_flipBit_sample :
    ∃ error, decodeRecord crc32 (flipBit (sealedRecord crc32 sampleHeader [1, 2, 3]) 33 5 ++ [9]) 0 =
      .error error :=
  decodeRecord_flipBit sampleHeader [1, 2, 3] (by decide) [9] 0 33 5
    (by rw [length_sealedRecord]; decide) (by decide)

end Bowst.Journal
