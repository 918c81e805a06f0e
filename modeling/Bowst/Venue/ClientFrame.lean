/-
Bowst.Venue.ClientFrame — encoding client frames (`encode_client_frame` of
`bowst-venue/src/ws/frame.rs`).

The writer keeps what it has written when a later write does not fit, as the
buffer of the caller does.
-/
import Bowst.Lib.Radix
import Bowst.Venue.Frame

namespace Bowst.Venue

open Bowst.Lib
open Bowst.Core (Bytes)

/-- A byte slice. No allocation, and so no slice, is longer than `isize::MAX` bytes. -/
structure ByteSlice where
  bytes : Bytes
  fits : bytes.length < 2 ^ 63
  deriving Repr

def Opcode.bits : Opcode → UInt8
  | .continuation => 0x0
  | .text => 0x1
  | .binary => 0x2
  | .close => 0x8
  | .ping => 0x9
  | .pong => 0xA

def finBit : UInt8 := 0x80

def maskedBit : UInt8 := 0x80

/-- `to_be_bytes` of an integer of `width` bytes. -/
def toBe (width n : Nat) : Bytes := (digitsOf 256 width n).map UInt8.ofNat

/-- Bytes, each xored with the key at its place in `mask.iter().cycle()`. -/
def xorCycle (mask bytes : Bytes) : Bytes :=
  bytes.mapIdx fun i byte => byte ^^^ mask.getD (i % mask.length) 0

/-- Bounds-checked sequential writer. -/
structure Writer where
  out : Bytes
  pos : Nat
  deriving DecidableEq, Repr

/-- A computation on a writer: an error leaves it where it has come to. -/
abbrev Writing := ExceptT WsError (StateM Writer)

/-- Takes the next `len` bytes of the buffer; the slot starts where the writer stood. -/
def Writer.reserve (len : Nat) : Writing Nat := do
  let w ← get
  let stop := w.pos + len
  if stop > 2 ^ 64 - 1 then throw .bufferTooSmall
  else if stop ≤ w.out.length then do
    set { w with pos := stop }
    return w.pos
  else throw .bufferTooSmall

/-- Overwrites a slot that was reserved. -/
def Writer.fill (start : Nat) (bytes : Bytes) : Writing Unit :=
  modify fun w => { w with out := splice w.out start bytes }

def Writer.put (bytes : Bytes) : Writing Unit := do
  let start ← Writer.reserve bytes.length
  Writer.fill start bytes

/-- The mask bit and the payload length, in the shortest of the three encodings. -/
def putLength (len : Nat) : Writing Unit :=
  if len < len16.toNat then Writer.put [maskedBit ||| UInt8.ofNat len]
  else if len < 2 ^ 16 then do
    Writer.put [maskedBit ||| len16]
    Writer.put (toBe 2 len)
  else if len < 2 ^ 64 then do
    Writer.put [maskedBit ||| len64]
    Writer.put (toBe 8 len)
  else throw .invalidLength

def writeFrame (opcode : Opcode) (payload : Bytes) (mask : Vector UInt8 4) : Writing Nat := do
  Writer.put [finBit ||| opcode.bits]
  putLength payload.length
  Writer.put mask.toList
  let start ← Writer.reserve payload.length
  Writer.fill start (xorCycle mask.toList payload)
  return (← get).pos

/-- Encodes one complete client frame into `out`: the number of bytes written, and the
buffer behind it. -/
def encodeClientFrame (opcode : Opcode) (payload : Bytes) (mask : Vector UInt8 4) (out : Bytes) :
    Except WsError Nat × Bytes :=
  if opcode.isControl ∧ payload.length > maxControlPayload then (.error .invalidControlFrame, out)
  else
    let (result, w) := (writeFrame opcode payload mask).run.run ⟨out, 0⟩
    (result, w.out)

end Bowst.Venue
