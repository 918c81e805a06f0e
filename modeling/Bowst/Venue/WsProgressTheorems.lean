/-
Bowst.Venue.WsProgressTheorems — the WebSocket reader never stalls with a full buffer.

What a reader holds when it asks for more bytes is no complete frame, so it is shorter
than the largest frame, and a buffer holds the largest frame. Compaction comes as soon
as the room behind the bytes is less than a payload, so there is room for one byte.

  §1 Headers — how long what is no complete frame can be.
  §2 Frames  — whole frames taken off the front of a stream.
  §3 Polling — `poll` is `nextEvent`, and takes whole frames off what is available.
  §4 Runs    — what every reachable reader keeps.
-/
import Bowst.Venue.WsTheorems

namespace Bowst.Venue

open Bowst.Lib
open Bowst.Core (Bytes)

/-! ## §1 Headers -/

theorem parseLength_none {buf : Bytes} {b1 : UInt8} (h : parseLength buf b1 = .ok none) :
    buf.length < maxServerHeader := by
  unfold parseLength at h
  dsimp only at h
  unfold maxServerHeader
  split_ifs at h <;> first | omega | cases h

theorem parseLength_headerLen {buf : Bytes} {b1 : UInt8} {len headerLen : Nat}
    (h : parseLength buf b1 = .ok (some (len, headerLen))) : headerLen ≤ maxServerHeader := by
  unfold parseLength at h
  dsimp only at h
  unfold maxServerHeader
  split_ifs at h <;> cases h <;> omega

section Header

variable {buf : Bytes} {maxPayload : Nat}

/-- A header that is not all there is shorter than the largest. -/
theorem parseServerHeader_none (h : parseServerHeader buf maxPayload = .ok none) :
    buf.length < maxServerHeader := by
  rcases parseServerHeader_ok h with ⟨-, hshort | ⟨b1, hlength⟩⟩ | ⟨_, _, hsome, -⟩
  · unfold maxServerHeader
    omega
  · exact parseLength_none hlength
  · cases hsome

/-- Header and payload of a frame that is accepted are within the limits. -/
theorem parseServerHeader_limits {header : FrameHeader}
    (h : parseServerHeader buf maxPayload = .ok (some header)) :
    header.headerLen ≤ maxServerHeader ∧ header.payloadLen ≤ maxPayload := by
  rcases parseServerHeader_ok h with ⟨hnone, -⟩ | ⟨_, b1, hsome, hlength, -, hmax⟩
  · cases hnone
  · cases hsome
    exact ⟨parseLength_headerLen hlength, hmax⟩

end Header

/-! ## §2 Frames -/

/-- A complete frame that the parser accepts. -/
def IsFrame (maxPayload : Nat) (frame : Bytes) : Prop :=
  ∃ header, parseServerHeader frame maxPayload = .ok (some header) ∧
    frame.length = header.headerLen + header.payloadLen

/-- `rest` is what is left of a stream when whole frames are taken off its front. -/
inductive FramesOff (maxPayload : Nat) : Bytes → Bytes → Prop where
  | refl (stream : Bytes) : FramesOff maxPayload stream stream
  | frame {stream rest : Bytes} {header : FrameHeader} :
      parseServerHeader stream maxPayload = .ok (some header) →
      header.headerLen + header.payloadLen ≤ stream.length →
      FramesOff maxPayload (stream.drop (header.headerLen + header.payloadLen)) rest →
      FramesOff maxPayload stream rest

section Frames

variable {maxPayload : Nat} {a b c : Bytes}

theorem FramesOff.trans (h₁ : FramesOff maxPayload a b) (h₂ : FramesOff maxPayload b c) :
    FramesOff maxPayload a c := by
  induction h₁ with
  | refl stream => exact h₂
  | frame hparse hlong _ ih => exact .frame hparse hlong (ih h₂)

/-- Bytes that come later change no frame before them. -/
theorem FramesOff.append (h : FramesOff maxPayload a b) (more : Bytes) :
    FramesOff maxPayload (a ++ more) (b ++ more) := by
  induction h with
  | refl stream => exact .refl _
  | @frame stream rest header hparse hlong _ ih =>
      have hparse' := (parseServerHeader_append more (by rw [hparse]; simp)).trans hparse
      refine .frame hparse' (by rw [List.length_append]; omega) ?_
      rw [List.drop_append_of_le_length hlong]
      exact ih

/-- What is left is the end of the stream. -/
theorem FramesOff.suffix (h : FramesOff maxPayload a b) : b <:+ a := by
  induction h with
  | refl stream => exact List.suffix_rfl
  | frame _ _ _ ih => exact ih.trans (List.drop_suffix _ _)

/-- A frame at the front of a stream is read as it stands. -/
theorem IsFrame.parse_append {frame : Bytes} (h : IsFrame maxPayload frame) (rest : Bytes) :
    ∃ header, parseServerHeader (frame ++ rest) maxPayload = .ok (some header) ∧
      frame.length = header.headerLen + header.payloadLen := by
  obtain ⟨header, hparse, hlen⟩ := h
  exact ⟨header, (parseServerHeader_append rest (by rw [hparse]; simp)).trans hparse, hlen⟩

end Frames

/-! ## §3 Polling -/

namespace WsReader

/-- `poll` is `nextEvent`, which drops the reader on an error. -/
theorem pollReady_eq : ∀ (rounds : Nat) (r : WsReader),
    (r.pollReady rounds).1.map (fun ready => (ready, (r.pollReady rounds).2)) =
      r.nextReady rounds := by
  intro rounds
  induction rounds with
  | zero => intro r; rfl
  | succ rounds ih =>
      intro r
      rw [pollReady, nextReady]
      cases hparse : parseServerHeader r.available r.config.maxFrame with
      | error err => rfl
      | ok found =>
          cases found with
          | none => rfl
          | some header =>
              simp only [bind, Except.bind]
              by_cases hshort : r.available.length < header.headerLen + header.payloadLen
              · rw [dif_pos hshort, dif_pos hshort]
                rfl
              · rw [dif_neg hshort, dif_neg hshort]
                cases (r.consume _ hshort).onFrame header (.buf (r.start + header.headerLen)
                    (r.start + (header.headerLen + header.payloadLen))) with
                | error err => rfl
                | ok res =>
                    obtain ⟨ready, r₁⟩ := res
                    cases ready with
                    | none => exact ih r₁
                    | some ready => rfl

theorem poll_eq (r : WsReader) :
    r.poll.1.map (fun event => (event, r.poll.2)) = r.nextEvent := by
  rw [nextEvent, ← pollReady_eq, poll]
  generalize r.pollReady (r.available.length + 1) = polled
  obtain ⟨found, r'⟩ := polled
  cases found <;> rfl

/-- What a reader holds is no complete frame. -/
def Incomplete (r : WsReader) : Prop :=
  parseServerHeader r.available r.config.maxFrame = .ok none ∨
    ∃ header, parseServerHeader r.available r.config.maxFrame = .ok (some header) ∧
      r.available.length < header.headerLen + header.payloadLen

theorem Incomplete.short {r : WsReader} (h : r.Incomplete) :
    r.available.length < r.config.maxFrame + maxServerHeader := by
  rcases h with hnone | ⟨header, hparse, hshort⟩
  · have := parseServerHeader_none hnone
    omega
  · have := parseServerHeader_limits hparse
    omega

theorem Incomplete.no_frame {r : WsReader} (h : r.Incomplete) {frame rest : Bytes}
    (hframe : IsFrame r.config.maxFrame frame) : r.available ≠ frame ++ rest := by
  intro havailable
  obtain ⟨header, hparse, hlen⟩ := hframe.parse_append rest
  rw [← havailable] at hparse
  rcases h with hnone | ⟨header', hparse', hshort⟩
  · rw [hnone] at hparse
    cases hparse
  · rw [hparse'] at hparse
    cases hparse
    rw [havailable, List.length_append] at hshort
    omega

/-- What polling does to the buffer: whole frames are taken off the front, the first
one if it is complete, and `none` is found only in front of what is no complete frame. -/
structure Polled (r : WsReader) (res : Except WsError (Option Ready) × WsReader) : Prop where
  config : res.2.config = r.config
  buf : res.2.buf = r.buf
  frames : FramesOff r.config.maxFrame r.available res.2.available
  stopped : res.1 = .ok none → res.2.Incomplete
  first : ∀ header, parseServerHeader r.available r.config.maxFrame = .ok (some header) →
    header.headerLen + header.payloadLen ≤ r.available.length →
    FramesOff r.config.maxFrame (r.available.drop (header.headerLen + header.payloadLen))
      res.2.available

/-- A reader that takes nothing off. -/
theorem Polled.stay {r : WsReader} {found : Except WsError (Option Ready)}
    (hstopped : found = .ok none → r.Incomplete)
    (hfirst : ∀ header, parseServerHeader r.available r.config.maxFrame = .ok (some header) →
      ¬ header.headerLen + header.payloadLen ≤ r.available.length) : Polled r (found, r) :=
  ⟨rfl, rfl, .refl _, hstopped, fun header hparse hlong => absurd hlong (hfirst header hparse)⟩

/-- A frame taken off, and what polling does behind it. -/
theorem Polled.behind {r r₁ : WsReader} {header : FrameHeader}
    {res : Except WsError (Option Ready) × WsReader}
    (hparse : parseServerHeader r.available r.config.maxFrame = .ok (some header))
    (hshort : ¬ r.available.length < header.headerLen + header.payloadLen)
    (hsame : SameBytes (r.consume _ hshort) r₁) (hconfig : res.2.config = r₁.config)
    (hbuf : res.2.buf = r₁.buf) (hframes : FramesOff r.config.maxFrame r₁.available res.2.available)
    (hstopped : res.1 = .ok none → res.2.Incomplete) : Polled r res := by
  have havailable := hsame.available.trans (available_consume hshort)
  rw [havailable] at hframes
  refine ⟨hconfig.trans hsame.config, hbuf.trans hsame.buf, .frame hparse (by omega) hframes,
    hstopped, ?_⟩
  intro header' hparse' _
  rw [hparse] at hparse'
  cases hparse'
  exact hframes

theorem failedFrame_same (r : WsReader) (header : FrameHeader) : SameBytes r (r.failedFrame header) := by
  unfold failedFrame
  split
  · split_ifs
    · exact .refl r
    · exact ⟨rfl, rfl, rfl, rfl⟩
  · split_ifs
    · exact .refl r
    · exact ⟨rfl, rfl, rfl, rfl⟩
  · exact .refl r

theorem pollReady_polled : ∀ (rounds : Nat) (r : WsReader), r.available.length < rounds →
    Polled r (r.pollReady rounds) := by
  intro rounds
  induction rounds with
  | zero => intro r h; omega
  | succ rounds ih =>
      intro r hrounds
      rw [pollReady]
      cases hparse : parseServerHeader r.available r.config.maxFrame with
      | error err => exact .stay (by simp) (by simp [hparse])
      | ok found =>
          cases found with
          | none => exact .stay (fun _ => .inl hparse) (by simp [hparse])
          | some header =>
              have hbounds := parseServerHeader_bounds hparse
              dsimp only
              by_cases hshort : r.available.length < header.headerLen + header.payloadLen
              · rw [dif_pos hshort]
                refine .stay (fun _ => .inr ⟨header, hparse, hshort⟩) fun header' hparse' => ?_
                rw [hparse] at hparse'
                cases hparse'
                omega
              · rw [dif_neg hshort]
                cases hon : (r.consume _ hshort).onFrame header (.buf (r.start + header.headerLen)
                    (r.start + (header.headerLen + header.payloadLen))) with
                | error err =>
                    exact .behind hparse hshort (failedFrame_same _ header) rfl rfl (.refl _) (by simp)
                | ok res =>
                    obtain ⟨ready, r₁⟩ := res
                    have hsame := onFrame_same hon
                    cases ready with
                    | some ready => exact .behind hparse hshort hsame rfl rfl (.refl _) (by simp)
                    | none =>
                        have havailable := hsame.available.trans (available_consume hshort)
                        have hshorter : r₁.available.length < rounds := by
                          rw [havailable, List.length_drop]
                          omega
                        have hrest := ih r₁ hshorter
                        have hconfig : r₁.config = r.config := hsame.config
                        have hframes := hrest.frames
                        rw [hconfig] at hframes
                        exact .behind hparse hshort hsame hrest.config hrest.buf hframes hrest.stopped

theorem poll_none {r r' : WsReader} (h : r.poll = (.ok none, r')) :
    r.pollReady (r.available.length + 1) = (.ok none, r') := by
  unfold poll at h
  generalize r.pollReady (r.available.length + 1) = polled at h ⊢
  obtain ⟨found, r₁⟩ := polled
  cases found with
  | error err => cases h
  | ok ready =>
      cases ready with
      | none => cases h; rfl
      | some ready => cases h

/-! ## §4 Runs -/

/-- The readers that come of a new one, each with the bytes committed to it since it was
new or reset. `spare` is written to and committed by any amount, which `commit` clamps. -/
inductive Reached (reader : WsReader) : Bytes → WsReader → Prop where
  | new : Reached reader [] reader
  | spare {received : Bytes} {r : WsReader} : Reached reader received r →
      Reached reader received r.spare
  | write {received : Bytes} {r : WsReader} (bytes : Bytes) (h : bytes.length ≤ r.free) :
      Reached reader received r → Reached reader received (r.write bytes h)
  | commit {received : Bytes} {r : WsReader} (n : Nat) : Reached reader received r →
      Reached reader (received ++ Lib.slice r.buf r.fin (min n r.free)) (r.commit n)
  | poll {received : Bytes} {r : WsReader} : Reached reader received r →
      Reached reader received r.poll.2
  | reset {received : Bytes} {r : WsReader} : Reached reader received r → Reached reader [] r.reset

/-- What every step keeps: the sizes, and the bytes committed less whole frames. -/
structure Kept (sizes : ReaderConfig) (received : Bytes) (r : WsReader) : Prop where
  config : r.config = sizes
  size : r.buf.length = sizes.buffer
  frames : FramesOff sizes.maxFrame received r.available

theorem length_spare_buf (r : WsReader) : r.spare.buf.length = r.buf.length := by
  have hlen := r.length_available
  have hbounded := r.bounded
  unfold spare
  split_ifs
  · rfl
  · exact length_splice (by omega)
  · rfl

/-- What is written behind the bytes changes none of them. -/
theorem available_write {r : WsReader} {bytes : Bytes} (h : bytes.length ≤ r.free) :
    (r.write bytes h).available = r.available := by
  have hbounded := r.bounded
  have hordered := r.ordered
  rw [free] at h
  rw [available_eq, available_eq]
  show Lib.slice (splice r.buf r.fin bytes) r.start (r.fin - r.start) = _
  exact slice_splice_of_disjoint (by omega) (.inl (by omega))

theorem available_commit (r : WsReader) (n : Nat) :
    (r.commit n).available = r.available ++ Lib.slice r.buf r.fin (min n r.free) := by
  have hbounded := r.bounded
  have hordered := r.ordered
  have hsplit : min (r.fin + n) r.buf.length - r.start = (r.fin - r.start) + min n r.free := by
    unfold free
    omega
  have hbehind : r.start + (r.fin - r.start) = r.fin := by omega
  rw [available_eq, available_eq]
  show Lib.slice r.buf r.start (min (r.fin + n) r.buf.length - r.start) = _
  rw [hsplit, ← slice_append_slice, hbehind]

theorem Reached.kept {config : ReaderConfig} {reader r : WsReader} {received : Bytes}
    (hnew : WsReader.new config = .ok reader) (h : Reached reader received r) :
    Kept config received r := by
  induction h with
  | new =>
      obtain ⟨hconfig, -, havailable⟩ := new_decoded hnew
      refine ⟨hconfig, ?_, by rw [havailable]; exact .refl _⟩
      unfold WsReader.new at hnew
      split_ifs at hnew
      cases hnew
      simp [empty]
  | @spare received r _ ih =>
      obtain ⟨havailable, -, hconfig⟩ := r.spare_same
      exact ⟨hconfig.trans ih.config, r.length_spare_buf.trans ih.size, by rw [havailable]; exact ih.frames⟩
  | @write received r bytes hfits _ ih =>
      refine ⟨ih.config, ?_, by rw [available_write]; exact ih.frames⟩
      have hbounded := r.bounded
      rw [free] at hfits
      exact (length_splice (by omega)).trans ih.size
  | @commit received r n _ ih =>
      exact ⟨ih.config, ih.size, by rw [available_commit]; exact ih.frames.append _⟩
  | @poll received r _ ih =>
      have hpolled := pollReady_polled (r.available.length + 1) r (Nat.lt_succ_self _)
      have hframes := hpolled.frames
      rw [ih.config] at hframes
      exact ⟨hpolled.config.trans ih.config, (congrArg List.length hpolled.buf).trans ih.size,
        ih.frames.trans hframes⟩
  | @reset received r _ ih =>
      have hempty : r.reset.available = [] := List.length_eq_zero_iff.mp r.reset.length_available
      exact ⟨ih.config, ih.size, by rw [hempty]; exact .refl _⟩

/-- A reader that holds no complete frame makes room. -/
theorem Incomplete.room {r : WsReader} (h : r.Incomplete) (hframe : 1 ≤ r.config.maxFrame)
    (hsize : r.config.maxFrame + maxServerHeader ≤ r.buf.length) : 0 < r.spare.free := by
  have hshort := h.short
  have hlen := r.length_available
  have hbounded := r.bounded
  have hbuf := r.length_spare_buf
  unfold free
  rw [hbuf]
  unfold spare
  split_ifs with hempty hmove
  · show 0 < r.buf.length - 0
    omega
  · show 0 < r.buf.length - (r.fin - r.start)
    omega
  · omega

end WsReader

/-- Two frames, and the front of a third. -/
def cutBytes : Bytes := [0x82, 4, 1, 2, 3, 4, 0x81, 4, 97, 98, 99, 100, 0x82, 4, 1, 2]

theorem cutBytes_fit : cutBytes.length ≤ smallReader.spare.free := by decide

/-- A small reader whose buffer they fill, behind the two. -/
def cutReader : WsReader := ((smallReader.spare.write cutBytes cutBytes_fit).commit 16).poll.2.poll.2

/-- **The reader never stalls with a full buffer.** However a reader is written to,
committed, polled and reset, its range stays inside its buffer, and it holds what was
committed less whole frames, also behind a compaction. Once `poll` asks for more bytes,
there is room for some and no complete frame left, and a complete frame in front of what
it holds is taken off by the next `poll`. -/
theorem reader_never_stalls {config : ReaderConfig} {reader r : WsReader} {received : Bytes}
    (hnew : WsReader.new config = .ok reader) (hframe : 1 ≤ config.maxFrame)
    (hreached : WsReader.Reached reader received r) :
    r.start ≤ r.fin ∧ r.fin ≤ r.buf.length ∧ r.buf.length = config.buffer ∧
      FramesOff config.maxFrame received r.available ∧ r.spare.available = r.available ∧
      (∀ r', r.poll = (.ok none, r') → 0 < r'.spare.free ∧
        ∀ frame rest, IsFrame config.maxFrame frame → r'.available ≠ frame ++ rest) ∧
      ∀ frame rest, IsFrame config.maxFrame frame → r.available = frame ++ rest →
        FramesOff config.maxFrame rest r.poll.2.available := by
  have hkept := hreached.kept hnew
  have hpolled := WsReader.pollReady_polled (r.available.length + 1) r (Nat.lt_succ_self _)
  have hsize : config.maxFrame + maxServerHeader ≤ config.buffer := by
    unfold WsReader.new at hnew
    split_ifs at hnew with hsmall
    omega
  refine ⟨r.ordered, r.bounded, hkept.size, hkept.frames, r.spare_same.1, ?_, ?_⟩
  · intro r' hnone
    rw [WsReader.poll_none hnone] at hpolled
    have hincomplete : r'.Incomplete := hpolled.stopped rfl
    have hconfig : r'.config = config := hpolled.config.trans hkept.config
    have hbuf : r'.buf.length = config.buffer := (congrArg List.length hpolled.buf).trans hkept.size
    refine ⟨hincomplete.room (by rw [hconfig]; exact hframe) (by rw [hconfig, hbuf]; exact hsize), ?_⟩
    intro frame rest hisFrame
    exact hincomplete.no_frame (by rw [hconfig]; exact hisFrame)
  · intro frame rest hisFrame havailable
    obtain ⟨header, hparse, hlen⟩ := hisFrame.parse_append rest
    rw [← havailable, ← hkept.config] at hparse
    have hfirst := hpolled.first header hparse (by rw [havailable, List.length_append]; omega)
    have hrest : r.available.drop (header.headerLen + header.payloadLen) = rest := by
      rw [havailable, ← hlen, List.drop_left]
    rw [hkept.config, hrest] at hfirst
    exact hfirst

/-- A frame cut at the end of a full buffer: there is no room until it is moved. -/
theorem reader_never_stalls_at_the_end :
    cutReader.poll = (.ok none, cutReader) ∧ cutReader.free = 0 ∧ 0 < cutReader.spare.free := by
  have hpoll : cutReader.poll = (.ok none, cutReader) := rfl
  have hreached := ((((WsReader.Reached.new : WsReader.Reached smallReader [] smallReader).spare.write cutBytes
    cutBytes_fit).commit 16).poll).poll
  have hstalls := reader_never_stalls (show WsReader.new ⟨16, 4, 8⟩ = .ok smallReader from rfl) (by decide) hreached
  exact ⟨hpoll, rfl, (hstalls.2.2.2.2.2.1 _ hpoll).1⟩

end Bowst.Venue
