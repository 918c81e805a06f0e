/-
Bowst.Venue.ClientFrameTheorems — client frames decode back.

A server takes the mask off a client frame. What is left is a frame as servers send
them, and the parser of server frames reads it as the one that was encoded.

  §1 Masks    — the mask bytes of a frame, and the frame without its mask.
  §2 Writer   — what a computation on the writer writes, and what it does without room.
  §3 Lengths  — the three encodings, and how the parser reads them.
  §4 Frames   — the frame that is written, and what it decodes to.
-/
import Bowst.Venue.ClientFrame

namespace Bowst.Venue

open Bowst.Lib
open Bowst.Core (Bytes)

/-! ## §1 Masks -/

@[simp] theorem length_xorCycle (mask bytes : Bytes) :
    (xorCycle mask bytes).length = bytes.length := by
  simp [xorCycle]

/-- How many bytes of a header stand between its second byte and the mask. -/
def extendedLen (b1 : UInt8) : Nat :=
  if b1 &&& 0x7F = len16 then 2 else if b1 &&& 0x7F = len64 then 8 else 0

/-- The four bytes of a frame behind its second byte and the length. -/
def maskBytes : Bytes → Bytes
  | _ :: b1 :: rest => slice rest (extendedLen b1) 4
  | _ => []

/-- Bytes without a mask: byte `i` xored with byte `i % 4` of the mask. -/
def unmask (mask : Vector UInt8 4) (bytes : Bytes) : Bytes :=
  bytes.mapIdx fun i byte => byte ^^^ mask[i % 4]

/-- A client frame as a server reads it: the mask bit cleared, the mask bytes taken
out, and the payload unmasked. -/
def unmasked (mask : Vector UInt8 4) : Bytes → Bytes
  | b0 :: b1 :: rest =>
      b0 :: (b1 &&& 0x7F) :: rest.take (extendedLen b1) ++
        unmask mask (rest.drop (extendedLen b1 + 4))
  | frame => frame

/-- The encoder's mask is undone byte by byte. -/
theorem unmask_xorCycle (mask : Vector UInt8 4) (bytes : Bytes) :
    unmask mask (xorCycle mask.toList bytes) = bytes := by
  refine List.ext_getElem (by simp [unmask]) fun i _ _ => ?_
  have hlt : i % 4 < 4 := Nat.mod_lt i (by decide)
  have hbyte : mask.toList.getD (i % mask.toList.length) 0 = mask[i % 4] := by
    rw [List.getD_eq_getElem?_getD, List.getElem?_eq_getElem (by rwa [Vector.length_toList])]
    simp
  simp only [unmask, xorCycle, List.getElem_mapIdx, hbyte, UInt8.xor_assoc, UInt8.xor_self, UInt8.xor_zero]

/-- What stands behind the second byte, in its three parts. -/
theorem parts_behind {extendedCount : Nat} {extended key : Bytes} (masked : Bytes)
    (hext : extended.length = extendedCount) (hkey : key.length = 4) :
    (extended ++ (key ++ masked)).take extendedCount = extended ∧
      slice (extended ++ (key ++ masked)) extendedCount 4 = key ∧
        (extended ++ (key ++ masked)).drop (extendedCount + 4) = masked := by
  refine ⟨?_, ?_, ?_⟩
  · rw [← hext, List.take_left]
  · rw [← hext, ← hkey, slice_append_length]
  · rw [← hext, ← hkey, List.drop_length_add_append, List.drop_left]

/-- A frame in its parts: its mask bytes, and what is left without them. -/
theorem unmasked_parts (b0 : UInt8) {b1 : UInt8} (extended payload : Bytes) (mask : Vector UInt8 4)
    (hext : extended.length = extendedLen b1) :
    maskBytes (b0 :: b1 :: (extended ++ (mask.toList ++ xorCycle mask.toList payload))) = mask.toList ∧
      unmasked mask (b0 :: b1 :: (extended ++ (mask.toList ++ xorCycle mask.toList payload))) =
        b0 :: (b1 &&& 0x7F) :: (extended ++ payload) := by
  obtain ⟨htake, hslice, hdrop⟩ := parts_behind (xorCycle mask.toList payload) hext mask.length_toList
  refine ⟨hslice, ?_⟩
  simp only [unmasked, htake, hdrop, unmask_xorCycle, List.cons_append]

/-! ## §2 Writer -/

section Writing

variable {α β : Type} {m : Writing α} {f : α → Writing β} {w w' : Writer}

theorem run_bind_ok {a : α} (h : m.run.run w = (.ok a, w')) :
    (m >>= f).run.run w = (f a).run.run w' := by
  simp only [ExceptT.run_bind, StateT.run_bind]
  rw [h]
  rfl

theorem run_bind_error {e : WsError} (h : m.run.run w = (.error e, w')) :
    (m >>= f).run.run w = (.error e, w') := by
  simp only [ExceptT.run_bind, StateT.run_bind]
  rw [h]
  rfl

theorem run_get : (get : Writing Writer).run.run w = (.ok w, w) := rfl

end Writing

/-- A buffer and a position in it, both of a size that a slice can have. -/
structure Writer.Sound (w : Writer) : Prop where
  inside : w.pos ≤ w.out.length
  slice : w.out.length < 2 ^ 63

/-- A writer behind bytes that it has written. -/
def Writer.wrote (w : Writer) (bytes : Bytes) : Writer :=
  { out := splice w.out w.pos bytes, pos := w.pos + bytes.length }

/-- A computation that writes `bytes`, or finds no room for all of them. -/
structure Writes (m : Writing Unit) (bytes : Bytes) : Prop where
  room : ∀ w, w.Sound → w.pos + bytes.length ≤ w.out.length →
    m.run.run w = (.ok (), w.wrote bytes)
  noRoom : ∀ w, w.Sound → w.out.length < w.pos + bytes.length →
    ∃ w', m.run.run w = (.error .bufferTooSmall, w')

theorem Writer.Sound.wrote {w : Writer} (hw : w.Sound) {bytes : Bytes}
    (h : w.pos + bytes.length ≤ w.out.length) : (w.wrote bytes).Sound := by
  have hlen : (w.wrote bytes).out.length = w.out.length := length_splice h
  exact ⟨by rw [hlen]; exact h, by rw [hlen]; exact hw.slice⟩

theorem run_reserve {w : Writer} {len : Nat} (hw : w.Sound) (h : w.pos + len ≤ w.out.length) :
    (Writer.reserve len).run.run w = (.ok w.pos, { w with pos := w.pos + len }) := by
  have hmax : ¬ w.pos + len > 2 ^ 64 - 1 := by have := hw.slice; omega
  unfold Writer.reserve
  rw [run_bind_ok run_get]
  dsimp only
  rw [if_neg hmax, if_pos h]
  rfl

theorem run_reserve_noRoom {w : Writer} {len : Nat} (h : w.out.length < w.pos + len) :
    (Writer.reserve len).run.run w = (.error .bufferTooSmall, w) := by
  unfold Writer.reserve
  rw [run_bind_ok run_get]
  dsimp only
  split_ifs with hmax hfits
  · rfl
  · omega
  · rfl

theorem writes_put (bytes : Bytes) : Writes (Writer.put bytes) bytes where
  room w hw h := by
    unfold Writer.put
    rw [run_bind_ok (run_reserve hw h)]
    rfl
  noRoom w _ h := by
    refine ⟨w, ?_⟩
    unfold Writer.put
    rw [run_bind_error (run_reserve_noRoom h)]

/-- One after the other. -/
theorem Writes.seq {m₁ m₂ : Writing Unit} {b₁ b₂ : Bytes} (h₁ : Writes m₁ b₁) (h₂ : Writes m₂ b₂) :
    Writes (m₁ >>= fun _ => m₂) (b₁ ++ b₂) where
  room w hw h := by
    rw [List.length_append, ← Nat.add_assoc] at h
    have hfirst : w.pos + b₁.length ≤ w.out.length := by omega
    have hlen : (w.wrote b₁).out.length = w.out.length := length_splice hfirst
    rw [run_bind_ok (h₁.room w hw hfirst),
      h₂.room (w.wrote b₁) (hw.wrote hfirst) (by rw [hlen]; exact h)]
    simp only [Writer.wrote, splice_splice_next hfirst, List.length_append, Nat.add_assoc]
  noRoom w hw h := by
    rw [List.length_append, ← Nat.add_assoc] at h
    by_cases hfirst : w.pos + b₁.length ≤ w.out.length
    · have hlen : (w.wrote b₁).out.length = w.out.length := length_splice hfirst
      rw [run_bind_ok (h₁.room w hw hfirst)]
      exact h₂.noRoom (w.wrote b₁) (hw.wrote hfirst) (by rw [hlen]; exact h)
    · obtain ⟨w', hw'⟩ := h₁.noRoom w hw (by omega)
      exact ⟨w', run_bind_error hw'⟩

/-! ## §3 Lengths -/

@[simp] theorem length_toBe (width n : Nat) : (toBe width n).length = width := by simp [toBe]

/-- Big-endian bytes read back. -/
theorem ofBe_toBe (width n : Nat) : ofBe (toBe width n) = n % 256 ^ width := by
  have hdigits : (toBe width n).map UInt8.toNat = digitsOf 256 width n := by
    have hdigit : ∀ d ∈ digitsOf 256 width n, (UInt8.toNat ∘ UInt8.ofNat) d = d := by
      intro d hd
      exact UInt8.toNat_ofNat_of_lt (digit_lt (by decide) width n d hd)
    rw [toBe, List.map_map, List.map_congr_left hdigit, List.map_id']
  rw [ofBe, ← numberOf_digitsOf, ← hdigits, numberOf, numberFrom, List.foldl_map]

/-- What `putLength` writes. -/
def lengthBytes (len : Nat) : Bytes :=
  if len < 126 then [maskedBit ||| UInt8.ofNat len]
  else if len < 2 ^ 16 then [maskedBit ||| len16] ++ toBe 2 len
  else [maskedBit ||| len64] ++ toBe 8 len

theorem writes_putLength {len : Nat} (h : len < 2 ^ 63) : Writes (putLength len) (lengthBytes len) := by
  have hmarker : len16.toNat = 126 := rfl
  unfold putLength lengthBytes
  rw [hmarker]
  split_ifs with hshort hmedium hlong
  · exact writes_put _
  · exact (writes_put _).seq (writes_put _)
  · exact (writes_put _).seq (writes_put _)
  · omega

/-- The first two bytes and the length of a final frame without a mask. -/
def plainHeader (opcode : Opcode) (len : Nat) : Bytes :=
  (finBit ||| opcode.bits) ::
    (if len < 126 then [UInt8.ofNat len]
     else if len < 2 ^ 16 then len16 :: toBe 2 len
     else len64 :: toBe 8 len)

/-- The first byte is that of a final frame without reserved bits. -/
theorem first_byte (opcode : Opcode) :
    (finBit ||| opcode.bits) &&& 0x70 = 0 ∧ (finBit ||| opcode.bits) &&& 0x80 ≠ 0 ∧
      Opcode.fromBits ((finBit ||| opcode.bits) &&& 0x0F) = .ok opcode := by
  cases opcode <;> decide

/-- A short length is no marker, and stands in the low bits alone. -/
theorem short_byte : ∀ len < 126, UInt8.ofNat len &&& 0x7F = UInt8.ofNat len ∧
    (maskedBit ||| UInt8.ofNat len) &&& 0x7F = UInt8.ofNat len ∧ UInt8.ofNat len ≠ len16 ∧
    UInt8.ofNat len ≠ len64 ∧ UInt8.ofNat len &&& 0x80 = 0 ∧
    (maskedBit ||| UInt8.ofNat len) &&& maskedBit = maskedBit := by
  decide

theorem slice_behind_two (b0 b1 : UInt8) (bytes rest : Bytes) :
    slice (b0 :: b1 :: (bytes ++ rest)) 2 bytes.length = bytes :=
  slice_append_length [b0, b1] bytes rest

/-- What the parser reads behind the first byte of a plain header. -/
theorem parseLength_plain {len : Nat} (hlen : len < 2 ^ 63) (opcode : Opcode) (rest : Bytes) :
    ∃ b1 tail, plainHeader opcode len = (finBit ||| opcode.bits) :: b1 :: tail ∧
      b1 &&& 0x80 = 0 ∧
      parseLength (plainHeader opcode len ++ rest) b1 =
        .ok (some (len, (plainHeader opcode len).length)) := by
  unfold plainHeader
  split_ifs with hshort hmedium
  · obtain ⟨hlow, -, h16, h64, hmask, -⟩ := short_byte len hshort
    refine ⟨UInt8.ofNat len, [], rfl, hmask, ?_⟩
    have hnat : (UInt8.ofNat len).toNat = len := UInt8.toNat_ofNat_of_lt (show len < 256 by omega)
    simp [parseLength, hlow, h16, h64, hnat]
  · refine ⟨len16, toBe 2 len, rfl, by decide, ?_⟩
    have hbytes := slice_behind_two (finBit ||| opcode.bits) len16 (toBe 2 len) rest
    have hvalue : ofBe (toBe 2 len) = len := by rw [ofBe_toBe]; omega
    have hmarker : len16 &&& 0x7F = len16 := by decide
    have hminimal : ¬ len < len16.toNat := hshort
    rw [length_toBe] at hbytes
    simp only [parseLength, hmarker, List.cons_append, hbytes, hvalue]
    rw [if_pos trivial, if_neg (by simp), if_neg hminimal]
    simp
  · refine ⟨len64, toBe 8 len, rfl, by decide, ?_⟩
    have hbytes := slice_behind_two (finBit ||| opcode.bits) len64 (toBe 8 len) rest
    have hvalue : ofBe (toBe 8 len) = len := by rw [ofBe_toBe]; omega
    have hmarker : len64 &&& 0x7F = len64 := by decide
    have h16 : len64 ≠ len16 := by decide
    have hminimal : ¬ (len < 2 ^ 16 ∨ len / 2 ^ 63 ≠ 0) := by
      rw [Nat.div_eq_of_lt hlen]
      omega
    rw [length_toBe] at hbytes
    simp only [parseLength, hmarker, List.cons_append, hbytes, hvalue]
    rw [if_neg h16, if_pos trivial, if_neg (by simp), if_neg hminimal]
    simp

/-- The parser reads a plain header, whatever comes behind it. -/
theorem parseServerHeader_plainHeader {opcode : Opcode} {len maxPayload : Nat}
    (hlen : len < 2 ^ 63) (hcontrol : ¬ (opcode.isControl ∧ len > maxControlPayload))
    (hmax : len ≤ maxPayload) (rest : Bytes) :
    parseServerHeader (plainHeader opcode len ++ rest) maxPayload =
      .ok (some ⟨true, opcode, (plainHeader opcode len).length, len⟩) := by
  obtain ⟨hreserved, hfin, hopcode⟩ := first_byte opcode
  obtain ⟨b1, tail, hheader, hmask, hlength⟩ := parseLength_plain hlen opcode rest
  have hallowed : opcode.isControl → len ≤ maxControlPayload := by
    intro hc
    by_contra hlong
    exact hcontrol ⟨hc, by omega⟩
  rw [hheader, List.cons_append, List.cons_append] at hlength ⊢
  simp only [parseServerHeader, hreserved, ne_eq, not_true_eq_false, if_false, hopcode, hmask,
    hlength]
  simpa [bind, Except.bind, hmax, hfin] using hallowed

/-! ## §4 Frames -/

/-- The bytes of a client frame. -/
def frameBytes (opcode : Opcode) (payload : Bytes) (mask : Vector UInt8 4) : Bytes :=
  [finBit ||| opcode.bits] ++
    (lengthBytes payload.length ++ (mask.toList ++ xorCycle mask.toList payload))

/-- How long a client frame with a payload of `len` bytes is. -/
def frameLength (len : Nat) : Nat :=
  if len < 126 then len + 6 else if len < 2 ^ 16 then len + 8 else len + 14

theorem length_frameBytes (opcode : Opcode) (payload : Bytes) (mask : Vector UInt8 4) :
    (frameBytes opcode payload mask).length = frameLength payload.length := by
  unfold frameBytes lengthBytes frameLength
  split_ifs <;> simp <;> omega

/-- A frame holds its mask, and without it is a plain header with the payload behind it. -/
theorem unmasked_frameBytes (opcode : Opcode) (payload : Bytes) (mask : Vector UInt8 4) :
    maskBytes (frameBytes opcode payload mask) = mask.toList ∧
      unmasked mask (frameBytes opcode payload mask) = plainHeader opcode payload.length ++ payload := by
  unfold frameBytes lengthBytes plainHeader
  split_ifs with hshort hmedium
  · obtain ⟨hlow, hclear, h16, h64, -⟩ := short_byte payload.length hshort
    have hext : extendedLen (maskedBit ||| UInt8.ofNat payload.length) = 0 := by
      rw [extendedLen, hclear, if_neg h16, if_neg h64]
    have h := unmasked_parts (finBit ||| opcode.bits) [] payload mask hext.symm
    rw [hclear] at h
    exact h
  · exact unmasked_parts _ (toBe 2 payload.length) payload mask (by simp; decide)
  · exact unmasked_parts _ (toBe 8 payload.length) payload mask (by simp; decide)

/-- The writer's computation, its last write in one with the slot it reserves. -/
theorem writeFrame_eq (opcode : Opcode) (payload : Bytes) (mask : Vector UInt8 4) :
    writeFrame opcode payload mask =
      ((Writer.put [finBit ||| opcode.bits] >>= fun _ =>
        putLength payload.length >>= fun _ =>
        Writer.put mask.toList >>= fun _ =>
        Writer.put (xorCycle mask.toList payload)) >>= fun _ => get >>= fun w => pure w.pos) := by
  simp only [writeFrame, Writer.put, length_xorCycle, bind_assoc]

theorem writes_frame (opcode : Opcode) {payload : Bytes} (mask : Vector UInt8 4)
    (h : payload.length < 2 ^ 63) :
    Writes (Writer.put [finBit ||| opcode.bits] >>= fun _ =>
        putLength payload.length >>= fun _ =>
        Writer.put mask.toList >>= fun _ =>
        Writer.put (xorCycle mask.toList payload))
      (frameBytes opcode payload mask) :=
  (writes_put _).seq ((writes_putLength h).seq ((writes_put _).seq (writes_put _)))

section Encode

variable {opcode : Opcode} {payload : Bytes} (mask : Vector UInt8 4) {out : Bytes}

theorem encodeClientFrame_control (h : opcode.isControl ∧ payload.length > maxControlPayload) :
    encodeClientFrame opcode payload mask out = (.error .invalidControlFrame, out) := by
  rw [encodeClientFrame, if_pos h]

/-- With room for the frame, exactly its bytes are written. -/
theorem encodeClientFrame_room (h : ¬ (opcode.isControl ∧ payload.length > maxControlPayload))
    (hpayload : payload.length < 2 ^ 63) (hout : out.length < 2 ^ 63)
    (hroom : frameLength payload.length ≤ out.length) :
    encodeClientFrame opcode payload mask out =
      (.ok (frameLength payload.length),
        frameBytes opcode payload mask ++ out.drop (frameLength payload.length)) := by
  have hlen := length_frameBytes opcode payload mask
  have hrun := (writes_frame opcode mask hpayload).room ⟨out, 0⟩
    ⟨Nat.zero_le _, hout⟩ (by rw [hlen, Nat.zero_add]; exact hroom)
  rw [encodeClientFrame, if_neg h, writeFrame_eq, run_bind_ok hrun, run_bind_ok run_get]
  simp only [Writer.wrote, splice, hlen, List.take_zero, List.nil_append, Nat.zero_add]
  rfl

/-- Without room for the frame, the encoder says so. -/
theorem encodeClientFrame_noRoom (h : ¬ (opcode.isControl ∧ payload.length > maxControlPayload))
    (hpayload : payload.length < 2 ^ 63) (hout : out.length < 2 ^ 63)
    (hroom : out.length < frameLength payload.length) :
    (encodeClientFrame opcode payload mask out).1 = .error .bufferTooSmall := by
  have hlen := length_frameBytes opcode payload mask
  obtain ⟨w', hrun⟩ := (writes_frame opcode mask hpayload).noRoom ⟨out, 0⟩
    ⟨Nat.zero_le _, hout⟩ (by rw [hlen, Nat.zero_add]; exact hroom)
  rw [encodeClientFrame, if_neg h, writeFrame_eq, run_bind_error hrun]

end Encode

theorem frameBytes_masked (opcode : Opcode) (payload : Bytes) (mask : Vector UInt8 4) :
    ∃ b0 b1 rest, frameBytes opcode payload mask = b0 :: b1 :: rest ∧ b1 &&& maskedBit = maskedBit := by
  unfold frameBytes lengthBytes
  split_ifs with hshort hmedium
  · exact ⟨_, _, _, rfl, (short_byte _ hshort).2.2.2.2.2⟩
  · exact ⟨_, _, _, rfl, by decide⟩
  · exact ⟨_, _, _, rfl, by decide⟩

/-- A client frame fails exactly for a control payload over 125 bytes, or else for a
buffer shorter than the frame. Otherwise its bytes stand at the front of the buffer,
the rest of which is as before. The mask bytes in the frame are those of `mask`; without
them, and unmasked by `mask`, the parser of server frames reads the bytes as a final frame
of the same opcode that holds the payload and nothing else. -/
theorem client_frames_decode_back (opcode : Opcode) (payload out : ByteSlice)
    (mask : Vector UInt8 4) :
    ((encodeClientFrame opcode payload.bytes mask out.bytes).1 = .error .invalidControlFrame ↔
      opcode.isControl ∧ payload.bytes.length > 125) ∧
    (¬ (opcode.isControl ∧ payload.bytes.length > 125) →
      ((encodeClientFrame opcode payload.bytes mask out.bytes).1 = .error .bufferTooSmall ↔
        out.bytes.length < frameLength payload.bytes.length)) ∧
    (¬ (opcode.isControl ∧ payload.bytes.length > 125) →
      frameLength payload.bytes.length ≤ out.bytes.length →
      ∃ n written, encodeClientFrame opcode payload.bytes mask out.bytes = (.ok n, written) ∧
        n = frameLength payload.bytes.length ∧ written.length = out.bytes.length ∧
        written.drop n = out.bytes.drop n ∧
        (∃ b0 b1 rest, written = b0 :: b1 :: rest ∧ b1 &&& maskedBit = maskedBit) ∧
        maskBytes (written.take n) = mask.toList ∧
        ∀ maxPayload ≥ payload.bytes.length, ∃ header,
          parseServerHeader (unmasked mask (written.take n)) maxPayload = .ok (some header) ∧
          header.fin = true ∧ header.opcode = opcode ∧
          header.headerLen + header.payloadLen = (unmasked mask (written.take n)).length ∧
          slice (unmasked mask (written.take n)) header.headerLen header.payloadLen =
            payload.bytes) := by
  have hcontrolEq : maxControlPayload = 125 := rfl
  rw [← hcontrolEq]
  by_cases hcontrol : opcode.isControl ∧ payload.bytes.length > maxControlPayload
  · rw [encodeClientFrame_control mask hcontrol]
    exact ⟨⟨fun _ => hcontrol, fun _ => rfl⟩, fun h => absurd hcontrol h,
      fun h => absurd hcontrol h⟩
  by_cases hroom : out.bytes.length < frameLength payload.bytes.length
  · have hsmall := encodeClientFrame_noRoom mask hcontrol payload.fits out.fits hroom
    rw [hsmall]
    exact ⟨⟨fun h => (by cases h), fun h => absurd h hcontrol⟩, fun _ => ⟨fun _ => hroom, fun _ => rfl⟩,
      fun _ h => absurd hroom (by omega)⟩
  · have hfits : frameLength payload.bytes.length ≤ out.bytes.length := by omega
    have hencoded := encodeClientFrame_room mask hcontrol payload.fits out.fits hfits
    have hlen := length_frameBytes opcode payload.bytes mask
    rw [hencoded]
    refine ⟨⟨fun h => (by cases h), fun h => absurd h hcontrol⟩,
      fun _ => ⟨fun h => (by cases h), fun h => absurd h hroom⟩, fun _ _ => ⟨_, _, rfl, rfl, ?_, ?_, ?_, ?_, ?_⟩⟩
    · rw [List.length_append, hlen, List.length_drop]
      omega
    · rw [← hlen, List.drop_left]
    · obtain ⟨b0, b1, rest, heq, hbit⟩ := frameBytes_masked opcode payload.bytes mask
      exact ⟨b0, b1, rest ++ out.bytes.drop (frameLength payload.bytes.length), by rw [heq]; rfl, hbit⟩
    · rw [← hlen, List.take_left]
      exact (unmasked_frameBytes opcode payload.bytes mask).1
    · intro maxPayload hmax
      rw [← hlen, List.take_left, (unmasked_frameBytes opcode payload.bytes mask).2]
      refine ⟨_, parseServerHeader_plainHeader payload.fits hcontrol hmax _, rfl, rfl, ?_, ?_⟩
      · rw [List.length_append]
      · rw [slice, List.drop_left, List.take_length]

end Bowst.Venue
