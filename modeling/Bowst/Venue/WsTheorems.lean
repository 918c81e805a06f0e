/-
Bowst.Venue.WsTheorems — WebSocket events do not depend on how bytes arrive.

The reference decoder sees a whole stream: it cuts it into frames, keeps the message
in progress, and stops at the first violation. A reader is the decoder stopped at its
unconsumed bytes, and decoding goes on where it stopped when more bytes come.

  §1 Decoder — the reference, and that it goes on (`decodeFrom_append`).
  §2 Frames  — a frame does to the reader what it does to the message in progress.
  §3 Buffer  — making room, writing and committing only add bytes.
  §4 Runs    — events of chunks are events of the stream.
-/
import Bowst.Core.ValueTheorems
import Bowst.Venue.WsReader

namespace Bowst.Venue

open Bowst.Lib
open Bowst.Core (Bytes)

/-! ## §1 Decoder -/

/-- The message in progress: its opcode, and the bytes of its fragments. -/
abbrev Fragments := Option (Opcode × Bytes)

/-- A complete message. -/
def dataEvent (opcode : Opcode) (payload : Bytes) : WsEvent :=
  if opcode = .binary then .binary payload else .text payload

def closeEvent : Bytes → Except WsError WsEvent
  | [] => .ok (.close none [])
  | [_] => .error .malformedClose
  | hi :: lo :: reason => .ok (.close (some (hi.toNat * 256 + lo.toNat)) reason)

/-- What one frame does: the events it completes, and the message in progress behind
it. Control frames leave the message alone. -/
def assemble (limit : Nat) (fragments : Fragments) (header : FrameHeader) (payload : Bytes) :
    Except WsError (List WsEvent × Fragments) :=
  match header.opcode, fragments with
  | .ping, _ => .ok ([.ping payload], fragments)
  | .pong, _ => .ok ([.pong payload], fragments)
  | .close, _ => (closeEvent payload).map fun event => ([event], fragments)
  | .continuation, none => .error .unexpectedFragment
  | .continuation, some (opcode, message) =>
      if (message ++ payload).length > limit then .error (.messageTooLarge limit)
      else if header.fin then .ok ([dataEvent opcode (message ++ payload)], none)
      else .ok ([], some (opcode, message ++ payload))
  | _, some _ => .error .unexpectedFragment
  | opcode, none =>
      if header.fin then .ok ([dataEvent opcode payload], none)
      else if payload.length > limit then .error (.messageTooLarge limit)
      else .ok ([], some (opcode, payload))

theorem parseLength_bounds {buf : Bytes} {b1 : UInt8} {len headerLen : Nat}
    (h : parseLength buf b1 = .ok (some (len, headerLen))) :
    2 ≤ headerLen ∧ (headerLen = 2 ∨ headerLen ≤ buf.length) := by
  unfold parseLength at h
  dsimp only at h
  split_ifs at h <;> cases h <;> omega

/-- What the parser finds: no header yet, because a byte of it is missing, or a header
with the length that `parseLength` reads, within the limit. -/
theorem parseServerHeader_ok {buf : Bytes} {maxPayload : Nat} {found : Option FrameHeader}
    (h : parseServerHeader buf maxPayload = .ok found) :
    (found = none ∧ (buf.length < 2 ∨ ∃ b1, parseLength buf b1 = .ok none)) ∨
      ∃ header b1, found = some header ∧
        parseLength buf b1 = .ok (some (header.payloadLen, header.headerLen)) ∧
        2 ≤ buf.length ∧ header.payloadLen ≤ maxPayload := by
  match buf, h with
  | [], h => cases h; exact .inl ⟨rfl, .inl (by simp)⟩
  | [_], h => cases h; exact .inl ⟨rfl, .inl (by simp)⟩
  | b0 :: b1 :: rest, h =>
    unfold parseServerHeader at h
    dsimp only at h
    by_cases hreserved : b0 &&& 0x70 ≠ 0
    · rw [if_pos hreserved] at h
      cases h
    rw [if_neg hreserved] at h
    obtain ⟨opcode, -, h⟩ := except_bind_eq_ok.mp h
    by_cases hmask : b1 &&& 0x80 ≠ 0
    · rw [if_pos hmask] at h
      cases h
    rw [if_neg hmask] at h
    obtain ⟨length, hlength, h⟩ := except_bind_eq_ok.mp h
    cases length with
    | none => cases h; exact .inl ⟨rfl, .inr ⟨b1, hlength⟩⟩
    | some length =>
        obtain ⟨len, headerLen⟩ := length
        dsimp only at h
        split_ifs at h with hcontrol hmax
        cases h
        exact .inr ⟨_, b1, rfl, hlength, by simp, hmax⟩

theorem parseServerHeader_bounds {buf : Bytes} {maxPayload : Nat} {header : FrameHeader}
    (h : parseServerHeader buf maxPayload = .ok (some header)) :
    2 ≤ header.headerLen ∧ header.headerLen ≤ buf.length := by
  rcases parseServerHeader_ok h with ⟨hnone, -⟩ | ⟨_, b1, hsome, hlength, htwo, -⟩
  · cases hnone
  · cases hsome
    have hbounds := parseLength_bounds hlength
    omega

section Decoder

variable (config : ReaderConfig)

/-- The reference decoder, from a message in progress on: the events of the frames in
`bytes`, and how they end, in an error or in front of what is no complete frame. -/
def decodeFrom (fragments : Fragments) (bytes : Bytes) :
    List WsEvent × Except WsError (Fragments × Bytes) :=
  match _hparse : parseServerHeader bytes config.maxFrame with
  | .error err => ([], .error err)
  | .ok none => ([], .ok (fragments, bytes))
  | .ok (some header) =>
      if bytes.length < header.headerLen + header.payloadLen then ([], .ok (fragments, bytes))
      else
        match assemble config.maxMessage fragments header
            (slice bytes header.headerLen header.payloadLen) with
        | .error err => ([], .error err)
        | .ok (events, fragments) =>
            let (more, out) :=
              decodeFrom fragments (bytes.drop (header.headerLen + header.payloadLen))
            (events ++ more, out)
  termination_by bytes.length
  decreasing_by
    have hbounds := parseServerHeader_bounds _hparse
    rw [List.length_drop]
    omega

/-- The events of a whole stream, and the error that ends them. -/
def decode (stream : Bytes) : List WsEvent × Option WsError :=
  match decodeFrom config none stream with
  | (events, .error err) => (events, some err)
  | (events, .ok _) => (events, none)

end Decoder

theorem parseLength_append {buf : Bytes} (more : Bytes) {b1 : UInt8}
    (h : parseLength buf b1 ≠ .ok none) : parseLength (buf ++ more) b1 = parseLength buf b1 := by
  unfold parseLength at h ⊢
  dsimp only at h ⊢
  rw [List.length_append]
  by_cases h16 : b1 &&& 0x7F = len16
  · rw [if_pos h16] at h
    rw [if_pos h16, if_pos h16]
    by_cases hshort : buf.length < 4
    · rw [if_pos hshort] at h
      exact absurd rfl h
    · rw [if_neg hshort, if_neg (by omega), slice_append_left (by omega)]
  · rw [if_neg h16] at h
    rw [if_neg h16, if_neg h16]
    by_cases h64 : b1 &&& 0x7F = len64
    · rw [if_pos h64] at h
      rw [if_pos h64, if_pos h64]
      by_cases hshort : buf.length < 10
      · rw [if_pos hshort] at h
        exact absurd rfl h
      · rw [if_neg hshort, if_neg (by omega), slice_append_left (by omega)]
    · rw [if_neg h64, if_neg h64]

/-- A header that is there, or a violation that is seen, stays. -/
theorem parseServerHeader_append {buf : Bytes} (more : Bytes) {maxPayload : Nat}
    (h : parseServerHeader buf maxPayload ≠ .ok none) :
    parseServerHeader (buf ++ more) maxPayload = parseServerHeader buf maxPayload := by
  match buf, h with
  | [], h => exact absurd rfl h
  | [_], h => exact absurd rfl h
  | b0 :: b1 :: rest, h =>
      unfold parseServerHeader at h ⊢
      simp only [List.cons_append] at h ⊢
      by_cases hreserved : b0 &&& 0x70 ≠ 0
      · rw [if_pos hreserved, if_pos hreserved]
      rw [if_neg hreserved] at h
      rw [if_neg hreserved, if_neg hreserved]
      cases hopcode : Opcode.fromBits (b0 &&& 0x0F) with
      | error err => rfl
      | ok opcode =>
          by_cases hmask : b1 &&& 0x80 ≠ 0
          · simp only [bind, Except.bind, if_pos hmask]
          · rw [hopcode] at h
            simp only [bind, Except.bind, if_neg hmask] at h ⊢
            have hlength : parseLength (b0 :: b1 :: rest) b1 ≠ .ok none := by
              intro hnone
              rw [hnone] at h
              exact h rfl
            have happend := parseLength_append more hlength
            rw [List.cons_append, List.cons_append] at happend
            rw [happend]

section Decoder

variable {config : ReaderConfig} (fragments : Fragments) {bytes : Bytes}

theorem decodeFrom_error {err : WsError} (h : parseServerHeader bytes config.maxFrame = .error err) :
    decodeFrom config fragments bytes = ([], .error err) := by
  rw [decodeFrom]
  split <;> simp_all

theorem decodeFrom_none (h : parseServerHeader bytes config.maxFrame = .ok none) :
    decodeFrom config fragments bytes = ([], .ok (fragments, bytes)) := by
  rw [decodeFrom]
  split <;> simp_all

variable {header : FrameHeader}

theorem decodeFrom_short (h : parseServerHeader bytes config.maxFrame = .ok (some header))
    (hshort : bytes.length < header.headerLen + header.payloadLen) :
    decodeFrom config fragments bytes = ([], .ok (fragments, bytes)) := by
  rw [decodeFrom]
  split <;> simp_all

/-- A complete frame. -/
theorem decodeFrom_frame (h : parseServerHeader bytes config.maxFrame = .ok (some header))
    (hlong : ¬ bytes.length < header.headerLen + header.payloadLen) :
    decodeFrom config fragments bytes =
      match assemble config.maxMessage fragments header
          (slice bytes header.headerLen header.payloadLen) with
      | .error err => ([], .error err)
      | .ok (events, fragments) =>
          let (more, out) :=
            decodeFrom config fragments (bytes.drop (header.headerLen + header.payloadLen))
          (events ++ more, out) := by
  rw [decodeFrom]
  split
  · simp_all
  · simp_all
  · next header' h' =>
    obtain rfl : header' = header := by simpa [h] using h'.symm
    rw [if_neg hlong]

end Decoder

/-- Decoding more bytes goes on where decoding stopped. -/
theorem decodeFrom_append (config : ReaderConfig) (ys : Bytes) :
    ∀ (n : Nat) (fragments : Fragments) (xs : Bytes), xs.length < n →
      decodeFrom config fragments (xs ++ ys) =
        match decodeFrom config fragments xs with
        | (events, .error err) => (events, .error err)
        | (events, .ok (fragments, rest)) =>
            let (more, out) := decodeFrom config fragments (rest ++ ys)
            (events ++ more, out) := by
  intro n
  induction n with
  | zero => intro fragments xs h; omega
  | succ n ih =>
      intro fragments xs hn
      cases hparse : parseServerHeader xs config.maxFrame with
      | error err =>
          have happend := parseServerHeader_append ys (by rw [hparse]; simp)
          rw [decodeFrom_error _ hparse, decodeFrom_error _ (happend.trans hparse)]
      | ok found =>
          cases found with
          | none => rw [decodeFrom_none _ hparse]; simp
          | some header =>
              have happend := parseServerHeader_append ys (by rw [hparse]; simp)
              have hbounds := parseServerHeader_bounds hparse
              by_cases hshort : xs.length < header.headerLen + header.payloadLen
              · rw [decodeFrom_short _ hparse hshort]
                simp
              · have hlong : ¬ (xs ++ ys).length < header.headerLen + header.payloadLen := by
                  rw [List.length_append]
                  omega
                rw [decodeFrom_frame _ hparse hshort, decodeFrom_frame _ (happend.trans hparse) hlong,
                  slice_append_left (by omega), List.drop_append_of_le_length (by omega)]
                cases assemble config.maxMessage fragments header
                    (slice xs header.headerLen header.payloadLen) with
                | error err => rfl
                | ok res =>
                    obtain ⟨events, fragments'⟩ := res
                    have hrest := ih fragments'
                      (xs.drop (header.headerLen + header.payloadLen)) (by simp; omega)
                    dsimp only
                    rw [hrest]
                    cases decodeFrom config fragments'
                        (xs.drop (header.headerLen + header.payloadLen)) with
                    | mk more out => cases out <;> simp

/-- Decoding stops in front of what is no complete frame. -/
theorem decodeFrom_stops (config : ReaderConfig) :
    ∀ (n : Nat) (fragments : Fragments) (bytes : Bytes), bytes.length < n →
      ∀ {events : List WsEvent} {fragments' : Fragments} {rest : Bytes},
        decodeFrom config fragments bytes = (events, .ok (fragments', rest)) →
          decodeFrom config fragments' rest = ([], .ok (fragments', rest)) := by
  intro n
  induction n with
  | zero => intro fragments bytes h; omega
  | succ n ih =>
      intro fragments bytes hn events fragments' rest h
      cases hparse : parseServerHeader bytes config.maxFrame with
      | error err => simp [decodeFrom_error _ hparse] at h
      | ok found =>
          cases found with
          | none =>
              have hstop := decodeFrom_none fragments hparse
              rw [hstop] at h
              cases h
              exact hstop
          | some header =>
              have hbounds := parseServerHeader_bounds hparse
              by_cases hshort : bytes.length < header.headerLen + header.payloadLen
              · have hstop := decodeFrom_short fragments hparse hshort
                rw [hstop] at h
                cases h
                exact hstop
              · rw [decodeFrom_frame _ hparse hshort] at h
                cases hassemble : assemble config.maxMessage fragments header
                    (slice bytes header.headerLen header.payloadLen) with
                | error err => simp [hassemble] at h
                | ok res =>
                    obtain ⟨first, fragments₁⟩ := res
                    simp only [hassemble, Prod.mk.injEq] at h
                    exact ih fragments₁ (bytes.drop (header.headerLen + header.payloadLen))
                      (by simp; omega) (Prod.ext rfl h.2)

/-! ## §2 Frames -/

namespace WsReader

/-- The message a reader has in progress. -/
def fragments (r : WsReader) : Fragments := r.fragment.map fun opcode => (opcode, r.message)

/-- A reader with the same buffer and the same range of it. -/
structure SameBytes (r r' : WsReader) : Prop where
  buf : r'.buf = r.buf
  start : r'.start = r.start
  fin : r'.fin = r.fin
  config : r'.config = r.config

theorem SameBytes.refl (r : WsReader) : SameBytes r r := ⟨rfl, rfl, rfl, rfl⟩

/-- The fragments are no part of the buffer. -/
theorem SameBytes.of_fragment {r r' : WsReader} {message : Bytes} {fragment : Option Opcode}
    (h : SameBytes { r with message, fragment } r') : SameBytes r r' :=
  ⟨h.buf, h.start, h.fin, h.config⟩

theorem SameBytes.available {r r' : WsReader} (h : SameBytes r r') : r'.available = r.available := by
  rw [WsReader.available, WsReader.available, range, range, h.buf, h.start, h.fin]

theorem ofBe_two (hi lo : UInt8) : ofBe [hi, lo] = hi.toNat * 256 + lo.toNat := by
  simp [ofBe]

section Frame

variable {r : WsReader} {start fin : Nat}

/-- What a span of the buffer holds behind its first two bytes. -/
theorem range_drop {hi lo : UInt8} {reason : Bytes} (h : r.range start fin = hi :: lo :: reason) :
    r.range (start + 2) fin = reason := by
  unfold range at h ⊢
  split_ifs at h with hrange
  have hlen := congrArg List.length h
  rw [length_slice (by omega)] at hlen
  simp only [List.length_cons] at hlen
  rw [if_pos (by omega)]
  have hdrop : Lib.slice r.buf (start + 2) (fin - (start + 2)) =
      (Lib.slice r.buf start (fin - start)).drop 2 := by
    unfold Lib.slice
    rw [← List.drop_drop, List.drop_take]
    congr 1
  rw [hdrop, h]
  rfl

/-- A close frame is the event of its payload. -/
theorem close_eq : (r.close (.buf start fin)).map r.event = closeEvent (r.range start fin) := by
  unfold close
  simp only [slice]
  cases hpayload : r.range start fin with
  | nil => simp [closeEvent, Except.map, event, slice, hpayload]
  | cons hi rest =>
      cases rest with
      | nil => rfl
      | cons lo reason =>
          simp [closeEvent, Except.map, event, slice, ofBe_two, range_drop hpayload]

theorem event_data (r : WsReader) (opcode : Opcode) (span : Span) :
    r.event (.data opcode span) = dataEvent opcode (r.slice span) := by
  cases opcode <;> simp [event, dataEvent]

/-- Appending puts the payload behind the message, unless it gets too large. -/
theorem append_eq (r : WsReader) (hrange : start ≤ fin ∧ fin ≤ r.buf.length) :
    r.append (.buf start fin) =
      if (r.message ++ r.range start fin).length > r.config.maxMessage then
        .error (.messageTooLarge r.config.maxMessage)
      else .ok { r with message := r.message ++ r.range start fin } := by
  have hlen : (r.range start fin).length = fin - start := by
    rw [range, if_pos hrange, length_slice (by omega)]
  rw [append, List.length_append, hlen]

/-- The events that a frame's result stands for, and the message behind it. -/
def outcome (res : Option Ready × WsReader) : List WsEvent × Fragments :=
  ((res.1.map res.2.event).toList, res.2.fragments)

/-- The first frame of a message, or all of it. -/
theorem onFrame_first {header : FrameHeader} (hfirst : header.opcode = .text ∨ header.opcode = .binary)
    (hrange : start ≤ fin ∧ fin ≤ r.buf.length) :
    (r.onFrame header (.buf start fin)).map outcome =
      assemble r.config.maxMessage r.fragments header (r.range start fin) := by
  obtain ⟨last, opcode, headerLen, payloadLen⟩ := header
  have happend := append_eq ({ r with fragment := some opcode, message := [] } : WsReader) hrange
  simp only at hfirst
  cases hfragment : r.fragment with
  | some open_ =>
      rcases hfirst with rfl | rfl <;> simp [onFrame, assemble, fragments, hfragment, Except.map]
  | none =>
      cases last with
      | true =>
          rcases hfirst with rfl | rfl <;>
            simp [onFrame, assemble, fragments, hfragment, Except.map, outcome, event_data, slice]
      | false =>
          have hrange_eq : ({ r with fragment := some opcode, message := [] } : WsReader).range start fin =
              r.range start fin := rfl
          rw [List.nil_append, hrange_eq] at happend
          have hassemble : assemble r.config.maxMessage r.fragments ⟨false, opcode, headerLen, payloadLen⟩
              (r.range start fin) =
              if (r.range start fin).length > r.config.maxMessage then
                .error (.messageTooLarge r.config.maxMessage)
              else .ok ([], some (opcode, r.range start fin)) := by
            rcases hfirst with rfl | rfl <;> simp [assemble, fragments, hfragment]
          have hframe : r.onFrame ⟨false, opcode, headerLen, payloadLen⟩ (.buf start fin) =
              (({ r with fragment := some opcode, message := [] } : WsReader).append (.buf start fin) >>=
                fun r => .ok (none, r)) := by
            rcases hfirst with rfl | rfl <;> simp [onFrame, hfragment]
          rw [hassemble, hframe, happend]
          split_ifs <;> rfl

/-- A frame does to a reader what it does to the message in progress. -/
theorem onFrame_eq (header : FrameHeader) (hrange : start ≤ fin ∧ fin ≤ r.buf.length) :
    (r.onFrame header (.buf start fin)).map outcome =
      assemble r.config.maxMessage r.fragments header (r.range start fin) := by
  cases hopcode : header.opcode with
  | text => exact onFrame_first (.inl hopcode) hrange
  | binary => exact onFrame_first (.inr hopcode) hrange
  | ping => simp [onFrame, assemble, hopcode, Except.map, outcome, event, slice]
  | pong => simp [onFrame, assemble, hopcode, Except.map, outcome, event, slice]
  | close =>
      simp only [onFrame, assemble, hopcode, ← close_eq]
      cases r.close (.buf start fin) <;> rfl
  | continuation =>
      cases hfragment : r.fragment with
      | none => simp [onFrame, assemble, fragments, hopcode, hfragment, Except.map]
      | some opcode =>
          simp only [onFrame, assemble, fragments, hopcode, hfragment, Option.map_some, append_eq r hrange]
          by_cases hlarge : (r.message ++ r.range start fin).length > r.config.maxMessage
          · rw [if_pos hlarge, if_pos hlarge]
            rfl
          · rw [if_neg hlarge, if_neg hlarge]
            cases hlast : header.fin with
            | true => simp [bind, Except.bind, Except.map, outcome, event_data, slice, fragments]
            | false => simp [bind, Except.bind, Except.map, outcome, fragments]

/-- Appending leaves the buffer alone. -/
theorem append_same {r' : WsReader} {payload : Span} (h : r.append payload = .ok r') : SameBytes r r' := by
  unfold append at h
  split at h
  · cases h
  · dsimp only at h
    split_ifs at h
    cases h
    exact ⟨rfl, rfl, rfl, rfl⟩

/-- A frame leaves the buffer alone. -/
theorem onFrame_same {header : FrameHeader} {payload : Span} {ready : Option Ready} {r' : WsReader}
    (h : r.onFrame header payload = .ok (ready, r')) : SameBytes r r' := by
  unfold onFrame at h
  split at h
  · cases h
    exact .refl r
  · cases h
    exact .refl r
  · obtain ⟨_, -, h⟩ := except_bind_eq_ok.mp h
    cases h
    exact .refl r
  · split_ifs at h
    · cases h
      exact .refl r
    · obtain ⟨r₁, happend, h⟩ := except_bind_eq_ok.mp h
      cases h
      exact (append_same happend).of_fragment
  · split_ifs at h
    · cases h
      exact .refl r
    · obtain ⟨r₁, happend, h⟩ := except_bind_eq_ok.mp h
      cases h
      exact (append_same happend).of_fragment
  · split at h
    · cases h
    · obtain ⟨r₁, happend, h⟩ := except_bind_eq_ok.mp h
      have hsame := append_same happend
      split_ifs at h
      · cases h
        exact hsame
      · cases h
        exact ⟨hsame.buf, hsame.start, hsame.fin, hsame.config⟩

end Frame

/-! ## §3 Buffer -/

theorem drop_slice {α : Type} (xs : List α) (start len n : Nat) :
    (Lib.slice xs start len).drop n = Lib.slice xs (start + n) (len - n) := by
  rw [Lib.slice, Lib.slice, List.drop_take, List.drop_drop]

theorem slice_slice {α : Type} (xs : List α) {start len i n : Nat} (h : i + n ≤ len) :
    Lib.slice (Lib.slice xs start len) i n = Lib.slice xs (start + i) n := by
  rw [Lib.slice, drop_slice, Lib.slice, Lib.slice, List.take_take, Nat.min_eq_left (by omega)]

theorem available_consume {r : WsReader} {frameLen : Nat} (h : ¬ r.available.length < frameLen) :
    (r.consume frameLen h).available = r.available.drop frameLen := by
  rw [available_eq, available_eq, drop_slice]
  show Lib.slice r.buf (r.start + frameLen) (r.fin - (r.start + frameLen)) = _
  rw [Nat.sub_add_eq]

/-- The payload of a complete frame is where its span says. -/
theorem range_consume {r : WsReader} {headerLen payloadLen : Nat}
    (h : ¬ r.available.length < headerLen + payloadLen) :
    (r.consume (headerLen + payloadLen) h).range (r.start + headerLen)
        (r.start + (headerLen + payloadLen)) = Lib.slice r.available headerLen payloadLen := by
  have hlen := r.length_available
  have hbounded := r.bounded
  have hordered := r.ordered
  have hspan : r.start + headerLen ≤ r.start + (headerLen + payloadLen) ∧
      r.start + (headerLen + payloadLen) ≤ r.buf.length := by omega
  have hsub : r.start + (headerLen + payloadLen) - (r.start + headerLen) = payloadLen := by omega
  rw [available_eq, slice_slice _ (by omega)]
  show (if r.start + headerLen ≤ r.start + (headerLen + payloadLen) ∧
      r.start + (headerLen + payloadLen) ≤ r.buf.length then _ else _) = _
  rw [if_pos hspan, hsub]
  rfl

/-- The decoder, from where a reader stands. -/
def decoded (r : WsReader) : List WsEvent × Except WsError (Fragments × Bytes) :=
  decodeFrom r.config r.fragments r.available

/-- What a search for the next event tells about the decoder. -/
def Finds (r : WsReader) : Except WsError (Option Ready × WsReader) → Prop
  | .error err => r.decoded = ([], .error err)
  | .ok (none, r') => r'.config = r.config ∧ r.decoded = ([], .ok (r'.fragments, r'.available))
  | .ok (some ready, r') => r'.config = r.config ∧ r'.available.length < r.available.length ∧
      r.decoded = (r'.event ready :: r'.decoded.1, r'.decoded.2)

/-- A frame without an event, and what comes behind it. -/
theorem Finds.behind {r r₁ : WsReader} {res : Except WsError (Option Ready × WsReader)}
    (h : r₁.Finds res) (hconfig : r₁.config = r.config)
    (hshorter : r₁.available.length < r.available.length) (hdecoded : r.decoded = r₁.decoded) :
    r.Finds res := by
  cases res with
  | error err => exact hdecoded.trans h
  | ok found =>
      obtain ⟨ready, r'⟩ := found
      cases ready with
      | none => exact ⟨h.1.trans hconfig, hdecoded.trans h.2⟩
      | some ready => exact ⟨h.1.trans hconfig, h.2.1.trans hshorter, hdecoded.trans h.2.2⟩

/-- One round for every two bytes is enough. -/
theorem nextReady_finds : ∀ (rounds : Nat) (r : WsReader), r.available.length < rounds →
    r.Finds (r.nextReady rounds) := by
  intro rounds
  induction rounds with
  | zero => intro r h; omega
  | succ rounds ih =>
      intro r hrounds
      rw [nextReady]
      cases hparse : parseServerHeader r.available r.config.maxFrame with
      | error err => exact decodeFrom_error _ hparse
      | ok found =>
          cases found with
          | none => exact ⟨rfl, decodeFrom_none _ hparse⟩
          | some header =>
              have hbounds := parseServerHeader_bounds hparse
              show r.Finds (if h : r.available.length < header.headerLen + header.payloadLen then _
                else _)
              by_cases hshort : r.available.length < header.headerLen + header.payloadLen
              · rw [dif_pos hshort]
                exact ⟨rfl, decodeFrom_short _ hparse hshort⟩
              · rw [dif_neg hshort]
                have hlen := r.length_available
                have hbounded := r.bounded
                have hordered := r.ordered
                have hframe := onFrame_eq (r := r.consume _ hshort) header
                  (show r.start + header.headerLen ≤ r.start + (header.headerLen + header.payloadLen) ∧
                    r.start + (header.headerLen + header.payloadLen) ≤ r.buf.length by omega)
                have hdecoded := decodeFrom_frame r.fragments hparse hshort
                rw [range_consume hshort] at hframe
                have hassemble : assemble r.config.maxMessage r.fragments header
                    (Lib.slice r.available header.headerLen header.payloadLen) = _ := hframe.symm
                rw [hassemble] at hdecoded
                cases hon : (r.consume _ hshort).onFrame header (.buf (r.start + header.headerLen)
                    (r.start + (header.headerLen + header.payloadLen))) with
                | error err =>
                    rw [hon] at hdecoded
                    exact hdecoded
                | ok res =>
                    obtain ⟨ready, r₁⟩ := res
                    have hsame := onFrame_same hon
                    have havailable := hsame.available.trans (available_consume hshort)
                    have hshorter : r₁.available.length < r.available.length := by
                      rw [havailable, List.length_drop]
                      omega
                    rw [hon, ← havailable] at hdecoded
                    have hrest : decodeFrom r.config r₁.fragments r₁.available = r₁.decoded := by
                      rw [decoded, hsame.config]
                      rfl
                    cases ready with
                    | none =>
                        refine (ih r₁ (by omega)).behind hsame.config hshorter (hdecoded.trans ?_)
                        exact hrest
                    | some ready =>
                        refine ⟨hsame.config, hshorter, hdecoded.trans ?_⟩
                        show ([r₁.event ready] ++ (decodeFrom r.config r₁.fragments r₁.available).1,
                          (decodeFrom r.config r₁.fragments r₁.available).2) = _
                        rw [hrest]
                        rfl

/-- Draining takes the events that the decoder finds in the bytes there are. -/
theorem drain_decoded : ∀ (rounds : Nat) (r : WsReader), r.available.length < rounds →
    ∀ {events : List WsEvent} {out : Except WsError WsReader}, r.drain rounds = (events, out) →
      r.decoded = (events, out.map fun r' => (r'.fragments, r'.available)) ∧
        ∀ r', out = .ok r' → r'.config = r.config := by
  intro rounds
  induction rounds with
  | zero => intro r h; omega
  | succ rounds ih =>
      intro r hrounds events out h
      have hfinds := nextReady_finds (r.available.length + 1) r (Nat.lt_succ_self _)
      rw [drain, nextEvent] at h
      cases hnext : r.nextReady (r.available.length + 1) with
      | error err =>
          rw [hnext] at hfinds h
          cases h
          exact ⟨hfinds, by simp⟩
      | ok found =>
          obtain ⟨ready, r₁⟩ := found
          rw [hnext] at hfinds h
          cases ready with
          | none =>
              cases h
              exact ⟨hfinds.2, by rintro r' ⟨⟩; exact hfinds.1⟩
          | some ready =>
              obtain ⟨hconfig, hshorter, hdecoded⟩ := hfinds
              cases hrest : r₁.drain rounds with
              | mk more out' =>
                  have h' : (r₁.event ready :: more, out') = (events, out) := by
                    rw [← h]
                    show _ = (_ :: (r₁.drain rounds).1, (r₁.drain rounds).2)
                    rw [hrest]
                  cases h'
                  obtain ⟨hmore, hkept⟩ := ih r₁ (by omega) hrest
                  rw [hmore] at hdecoded
                  exact ⟨hdecoded, fun r' hr' => (hkept r' hr').trans hconfig⟩

/-- Making room moves the unconsumed bytes, at most. -/
theorem spare_same (r : WsReader) : r.spare.available = r.available ∧
    r.spare.fragments = r.fragments ∧ r.spare.config = r.config := by
  have hlen := r.length_available
  have hbounded := r.bounded
  have hordered := r.ordered
  unfold spare
  split_ifs with hempty hmove
  · refine ⟨?_, rfl, rfl⟩
    have hnil : r.available = [] := List.length_eq_zero_iff.mp (by omega)
    rw [hnil, available_eq]
    simp [Lib.slice]
  · refine ⟨?_, rfl, rfl⟩
    rw [available_eq]
    show Lib.slice (splice r.buf 0 r.available) 0 (r.fin - r.start - 0) = r.available
    rw [Nat.sub_zero, ← hlen]
    exact slice_splice_self (by omega)
  · exact ⟨rfl, rfl, rfl⟩

/-- Bytes written and committed are available behind the others. -/
theorem commit_same (r : WsReader) {chunk : Bytes} (h : chunk.length ≤ r.free) :
    ((r.write chunk h).commit chunk.length).available = r.available ++ chunk ∧
      ((r.write chunk h).commit chunk.length).fragments = r.fragments ∧
      ((r.write chunk h).commit chunk.length).config = r.config := by
  have hbounded := r.bounded
  have hordered := r.ordered
  rw [free] at h
  have hfit : r.fin + chunk.length ≤ r.buf.length := by omega
  refine ⟨?_, rfl, rfl⟩
  rw [available_eq, available_eq]
  show Lib.slice (splice r.buf r.fin chunk) r.start
    (min (r.fin + chunk.length) (splice r.buf r.fin chunk).length - r.start) = _
  rw [length_splice hfit, Nat.min_eq_left hfit]
  have hsplit : r.fin + chunk.length - r.start = (r.fin - r.start) + chunk.length := by omega
  have hbehind : r.start + (r.fin - r.start) = r.fin := by omega
  rw [hsplit, ← slice_append_slice, hbehind, slice_splice_self hfit,
    slice_splice_of_disjoint hfit (.inl (by omega))]

/-! ## §4 Runs -/

/-- A reader that was drained, and the chunks that come: the rest of the stream. -/
theorem run_decoded : ∀ (chunks : List Bytes) (r : WsReader),
    r.decoded = ([], .ok (r.fragments, r.available)) →
    ∀ {events : List WsEvent} {err : Option WsError}, r.run chunks = some (events, err) →
      ∃ out, decodeFrom r.config r.fragments (r.available ++ chunks.flatten) = (events, out) ∧
        err = (match out with | .error e => some e | .ok _ => none) := by
  intro chunks
  induction chunks with
  | nil =>
      intro r hdrained events err h
      cases h
      rw [List.flatten_nil, List.append_nil]
      exact ⟨_, hdrained, rfl⟩
  | cons chunk chunks ih =>
      intro r hdrained events err h
      obtain ⟨hspare, hspareFragments, hspareConfig⟩ := r.spare_same
      rw [run] at h
      dsimp only at h
      split_ifs at h with hfits
      obtain ⟨havailable, hfragments, hconfig⟩ := r.spare.commit_same hfits
      generalize hr₁ : (r.spare.write chunk hfits).commit chunk.length = r₁ at h havailable hfragments hconfig
      rw [hspare] at havailable
      rw [hspareFragments] at hfragments
      rw [hspareConfig] at hconfig
      cases hdrain : r₁.drain (r₁.available.length + 1) with
      | mk first out =>
          obtain ⟨hdecoded, hkept⟩ := drain_decoded _ r₁ (Nat.lt_succ_self _) hdrain
          have hwhole := decodeFrom_append r.config chunks.flatten _ r.fragments (r.available ++ chunk)
            (Nat.lt_succ_self _)
          rw [decoded, hconfig, hfragments, havailable] at hdecoded
          rw [hdecoded, List.append_assoc] at hwhole
          rw [List.flatten_cons]
          rw [hdrain] at h
          cases out with
          | error e =>
              cases h
              exact ⟨_, hwhole, rfl⟩
          | ok r' =>
              have hr' : r'.config = r.config := (hkept r' rfl).trans hconfig
              have hstops : r'.decoded = ([], .ok (r'.fragments, r'.available)) := by
                rw [decoded, hr']
                exact decodeFrom_stops r.config _ _ _ (Nat.lt_succ_self _) hdecoded
              obtain ⟨⟨more, err'⟩, hrun, heq⟩ := Option.map_eq_some_iff.mp h
              cases heq
              obtain ⟨out', hrest, herr⟩ := ih r' hstops hrun
              rw [hr'] at hrest
              refine ⟨out', hwhole.trans ?_, herr⟩
              simp [Except.map, hrest]

end WsReader

theorem WsReader.new_decoded {config : ReaderConfig} {r : WsReader} (h : WsReader.new config = .ok r) :
    r.config = config ∧ r.fragments = none ∧ r.available = [] := by
  unfold WsReader.new at h
  split_ifs at h
  cases h
  exact ⟨rfl, rfl, List.length_eq_zero_iff.mp (WsReader.length_available _)⟩

/-- **Events do not depend on how bytes arrive.** Whatever the chunks that a stream
comes in, the events of a new reader, and the error that ends them, are those of the
reference decoder over the whole stream. -/
theorem ws_events_of_stream (config : ReaderConfig) (reader : WsReader)
    (hnew : WsReader.new config = .ok reader) (chunks : List Bytes)
    (result : List WsEvent × Option WsError) (hrun : reader.run chunks = some result) :
    result = decode config chunks.flatten := by
  obtain ⟨hconfig, hfragments, havailable⟩ := WsReader.new_decoded hnew
  have hdrained : reader.decoded = ([], .ok (reader.fragments, reader.available)) := by
    rw [WsReader.decoded, havailable]
    exact decodeFrom_none _ rfl
  obtain ⟨events, err⟩ := result
  obtain ⟨out, hdecoded, rfl⟩ := WsReader.run_decoded chunks reader hdrained hrun
  rw [hconfig, hfragments, havailable, List.nil_append] at hdecoded
  rw [decode, hdecoded]
  cases out <;> rfl

/-- A small reader. -/
def smallReader : WsReader := .empty ⟨16, 4, 8⟩

/-- A message in two fragments with a ping between them and a frame too long behind,
cut in the middle of headers and payloads: the buffer is compacted on the way. -/
theorem ws_events_of_cut_frames :
    let chunks : List Bytes :=
      [[2], [2, 97], [98, 0x89, 2, 104, 98, 0x80], [2, 99], [100, 0x82, 4, 1], [2, 3, 4, 0x81, 5]]
    smallReader.run chunks =
        some ([.ping [104, 98], .binary [97, 98, 99, 100], .binary [1, 2, 3, 4]],
          some (.frameTooLarge 5 4)) ∧
      decode ⟨16, 4, 8⟩ chunks.flatten =
        ([.ping [104, 98], .binary [97, 98, 99, 100], .binary [1, 2, 3, 4]],
          some (.frameTooLarge 5 4)) := by
  have hrun : smallReader.run
      [[2], [2, 97], [98, 0x89, 2, 104, 98, 0x80], [2, 99], [100, 0x82, 4, 1], [2, 3, 4, 0x81, 5]] =
      some ([.ping [104, 98], .binary [97, 98, 99, 100], .binary [1, 2, 3, 4]],
        some (.frameTooLarge 5 4)) := by
    decide +kernel
  exact ⟨hrun, (ws_events_of_stream _ smallReader rfl _ _ hrun).symm⟩

end Bowst.Venue
