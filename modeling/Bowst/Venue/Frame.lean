/-
Bowst.Venue.Frame — headers of server frames (`bowst-venue/src/ws/frame.rs`), and
`WsError` of `bowst-venue/src/ws/mod.rs`.

A `usize` has 64 bits, so every length of a frame that is not refused is one.
-/
import Bowst.Core.Fixed
import Bowst.Lib.Bytes

namespace Bowst.Venue

open Bowst.Lib
open Bowst.Core (Bytes)

/-- A WebSocket protocol violation or a limit exceeded. -/
inductive WsError where
  | handshake (text : String)
  | handshakeTooLarge
  | reservedBits
  | unknownOpcode (bits : UInt8)
  | maskedServerFrame
  | invalidLength
  | invalidControlFrame
  | frameTooLarge (len limit : Nat)
  | messageTooLarge (limit : Nat)
  | unexpectedFragment
  | malformedClose
  | bufferTooSmall
  deriving DecidableEq, Repr

/-- Frame opcodes defined by RFC 6455. -/
inductive Opcode where
  | continuation
  | text
  | binary
  | close
  | ping
  | pong
  deriving DecidableEq, Repr

def Opcode.fromBits (bits : UInt8) : Except WsError Opcode :=
  if bits = 0x0 then .ok .continuation
  else if bits = 0x1 then .ok .text
  else if bits = 0x2 then .ok .binary
  else if bits = 0x8 then .ok .close
  else if bits = 0x9 then .ok .ping
  else if bits = 0xA then .ok .pong
  else .error (.unknownOpcode bits)

/-- Whether this is a control frame. -/
def Opcode.isControl : Opcode → Bool
  | .close | .ping | .pong => true
  | .continuation | .text | .binary => false

/-- A parsed server frame header. -/
structure FrameHeader where
  fin : Bool
  opcode : Opcode
  headerLen : Nat
  payloadLen : Nat
  deriving DecidableEq, Repr

/-- Longest payload a control frame may carry. -/
def maxControlPayload : Nat := 125

/-- Length markers for extended payload lengths of 16 and 64 bits. -/
def len16 : UInt8 := 0x7E

def len64 : UInt8 := 0x7F

/-- `from_be_bytes`. -/
def ofBe (bytes : Bytes) : Nat := bytes.foldl (fun n byte => n * 256 + byte.toNat) 0

/-- The payload length and the length of the header, once its bytes are there. -/
def parseLength (buf : Bytes) (b1 : UInt8) : Except WsError (Option (Nat × Nat)) :=
  let marker := b1 &&& 0x7F
  if marker = len16 then
    if buf.length < 4 then .ok none
    else
      let len := ofBe (slice buf 2 2)
      if len < len16.toNat then .error .invalidLength else .ok (some (len, 4))
  else if marker = len64 then
    if buf.length < 10 then .ok none
    else
      let len := ofBe (slice buf 2 8)
      -- Must need 64 bits (else non-minimal) and have the top bit clear.
      if len < 2 ^ 16 ∨ len / 2 ^ 63 ≠ 0 then .error .invalidLength else .ok (some (len, 10))
  else .ok (some (marker.toNat, 2))

/-- Parses the header of a frame sent by a server. `none` means more bytes are needed. -/
def parseServerHeader (buf : Bytes) (maxPayload : Nat) : Except WsError (Option FrameHeader) :=
  match buf with
  | b0 :: b1 :: _ =>
      if b0 &&& 0x70 ≠ 0 then .error .reservedBits
      else do
        let fin := decide (b0 &&& 0x80 ≠ 0)
        let opcode ← Opcode.fromBits (b0 &&& 0x0F)
        if b1 &&& 0x80 ≠ 0 then .error .maskedServerFrame
        else
          match ← parseLength buf b1 with
          | none => .ok none
          | some (len, headerLen) =>
              if opcode.isControl ∧ (¬ fin ∨ len > maxControlPayload) then
                .error .invalidControlFrame
              else if len ≤ maxPayload then .ok (some ⟨fin, opcode, headerLen, len⟩)
              else .error (.frameTooLarge len maxPayload)
  | _ => .ok none

end Bowst.Venue
