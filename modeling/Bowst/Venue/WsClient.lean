/-
Bowst.Venue.WsClient — a WebSocket client over a byte stream
(`bowst-venue/src/ws/client.rs`).

What the peer does is an argument: `socket` is what arrives on the connection, from
which a read takes no more than its buffer holds, and a send is given what its writes
meet. `wire` is everything the client wrote. On a connection on which nothing arrives any
more a read blocks, and one with a timeout times out.
-/
import Bowst.Venue.ClientFrame
import Bowst.Venue.Handshake
import Bowst.Venue.Net
import Bowst.Venue.WsReader

namespace Bowst.Venue

open Bowst.Core Bowst.Lib

/-! ## The connection -/

/-- What arrives on a connection. Bytes of which there are none are its end. -/
inductive Arrival where
  | bytes (chunk : Bytes)
  | wouldBlock
  | interrupted
  | timedOut (source : String)
  | failed (source : String)
  deriving DecidableEq, Repr

/-- A read into a buffer of `size` bytes: what does not fit is left to the next. -/
def readSocket (size : Nat) : List Arrival → Arrival × List Arrival
  | [] => (.wouldBlock, [])
  | .bytes chunk :: socket =>
      if chunk.length ≤ size then (.bytes chunk, socket)
      else (.bytes (chunk.take size), .bytes (chunk.drop size) :: socket)
  | arrival :: socket => (arrival, socket)

/-- How much there is to read. -/
def pending : List Arrival → Nat
  | [] => 0
  | .bytes chunk :: socket => chunk.length + 1 + pending socket
  | _ :: socket => 1 + pending socket

theorem pending_readSocket {size : Nat} (hsize : 0 < size) {socket : List Arrival}
    (h : socket ≠ []) : pending (readSocket size socket).2 < pending socket := by
  match socket, h with
  | .bytes chunk :: socket, _ =>
      rw [readSocket]
      split_ifs with hfits
      · simp [pending]
      · simp [pending]
        omega
  | .wouldBlock :: socket, _ => simp [readSocket, pending]
  | .interrupted :: socket, _ => simp [readSocket, pending]
  | .timedOut source :: socket, _ => simp [readSocket, pending]
  | .failed source :: socket, _ => simp [readSocket, pending]

theorem length_readSocket {size : Nat} {socket rest : List Arrival} {chunk : Bytes}
    (h : readSocket size socket = (.bytes chunk, rest)) : chunk.length ≤ size := by
  unfold readSocket at h
  split at h
  · cases h
  · split_ifs at h with hfits
    · cases h
      exact hfits
    · cases h
      exact List.length_take_le ..
  · rename_i hnot
    cases h
    exact absurd rfl (hnot chunk)

/-- What a write or a flush of the connection meets. `late` says whether the deadline
has passed by then. -/
inductive Written where
  | wrote (n : Nat)
  | blocked (late : Bool)
  | failed (source : String)
  deriving DecidableEq, Repr

/-! ## Connecting -/

/-- Bytes read at a time. -/
def upgradeChunk : Nat := 1024

/-- The loop that reads the upgrade response: the length of its headers, all that was
read, and what is left of the connection. -/
def readUpgrade (h : Handshake) (response : Bytes) (socket : List Arrival) :
    Except NetError (Nat × Bytes × List Arrival) :=
  if _hsocket : socket = [] then .error (.timeout "WebSocket handshake")
  else
    match _hread : readSocket upgradeChunk socket with
    | (.bytes chunk, rest) =>
        if chunk = [] then .error .closed
        else
          match h.parseResponse (response ++ chunk) with
          | .error err => .error (.webSocket err)
          | .ok (some len) => .ok (len, response ++ chunk, rest)
          | .ok none => readUpgrade h (response ++ chunk) rest
    | (.interrupted, rest) => readUpgrade h response rest
    | (.wouldBlock, _) | (.timedOut _, _) => .error (.timeout "WebSocket handshake")
    | (.failed source, _) => .error (.io "read upgrade response" source)
termination_by pending socket
decreasing_by
  all_goals
    have hless := pending_readSocket (show 0 < upgradeChunk by decide) _hsocket
    rw [_hread] at hless
    exact hless

/-- What the network does while a client connects. -/
structure Opening where
  /-- Resolving, connecting and the TLS handshake. -/
  opened : Except NetError Unit
  /-- The random bytes of the key, or why there are none. -/
  random : Except String (Vector UInt8 16)
  /-- The upgrade request is written. -/
  requested : Except String Unit
  socket : List Arrival
  /-- The socket is switched to non-blocking mode. -/
  nonblocking : Except String Unit
  deriving DecidableEq

/-- Largest client frame that `send` accepts. -/
def maxSendPayload : Nat := 4096

/-- Longest possible client frame header. -/
def maxClientHeader : Nat := 14

/-- A connected WebSocket. -/
structure WsClient where
  socket : List Arrival
  reader : WsReader
  out : Bytes
  wire : Bytes
  deriving Repr

namespace WsClient

/-- Hands the first bytes of `leftover` to a reader: as many as it has room for. -/
def preload (reader : WsReader) (leftover : Bytes) : WsReader :=
  let reader := reader.spare
  let chunk := leftover.take (min leftover.length reader.free)
  (reader.write chunk (by simp [chunk])).commit chunk.length

/-- Connects, and performs the upgrade handshake. -/
def connect (sha1 : Bytes → Vector UInt8 20) (url : Url) (config : ReaderConfig)
    (opening : Opening) : Except NetError WsClient := do
  opening.opened
  let random ← opening.random.mapError NetError.tls
  let handshake := Handshake.new sha1 random
  opening.requested.mapError (NetError.io "send upgrade request")
  let (headerLen, response, socket) ← readUpgrade handshake [] opening.socket
  -- Anything after the headers is already WebSocket frames.
  let reader ← (WsReader.new config).mapError NetError.webSocket
  let reader := preload reader (response.drop headerLen)
  opening.nonblocking.mapError (NetError.io "set non-blocking")
  return {
    socket
    reader
    out := List.replicate (maxSendPayload + maxClientHeader) 0
    wire := handshake.writeRequest url.hostHeader url.path }

/-! ## Receiving -/

/-- One non-blocking read into the receive buffer. -/
def fill (c : WsClient) : Except NetError Nat × WsClient :=
  let reader := c.reader.spare
  -- Unconsumed events fill the buffer: the caller must drain them first.
  if reader.free = 0 then (.ok 0, { c with reader })
  else
    match hread : readSocket reader.free c.socket with
    | (.bytes chunk, socket) =>
        if chunk = [] then (.error .closed, { c with socket, reader })
        else
          (.ok chunk.length, { c with
            socket
            reader := (reader.write chunk (length_readSocket hread)).commit chunk.length })
    | (.wouldBlock, socket) | (.interrupted, socket) => (.ok 0, { c with socket, reader })
    | (.timedOut source, socket) | (.failed source, socket) =>
        (.error (.io "read WebSocket" source), { c with socket, reader })

/-- The next complete event from bytes already read, if any. -/
def nextEvent (c : WsClient) : Except NetError (Option WsEvent) × WsClient :=
  let (found, reader) := c.reader.poll
  (found.mapError NetError.webSocket, { c with reader })

/-! ## Sending -/

/-- The write loop of `send`: what it returns, and what is on the wire after it. -/
def writeAll : Bytes → List Written → Except NetError Unit × Bytes
  | [], _ => (.ok (), [])
  | _ :: _, [] => (.error (.timeout "sending WebSocket frame"), [])
  | b :: bytes, .wrote n :: writes =>
      if n = 0 then (.error .closed, [])
      else
        let (result, wire) := writeAll ((b :: bytes).drop n) writes
        (result, (b :: bytes).take n ++ wire)
  | b :: bytes, .blocked late :: writes =>
      if late then (.error (.timeout "sending WebSocket frame"), [])
      else writeAll (b :: bytes) writes
  | _ :: _, .failed source :: _ => (.error (.io "write WebSocket" source), [])

/-- The flush loop of `send`. -/
def flushAll : List Written → Except NetError Unit
  | [] => .error (.timeout "flushing WebSocket frame")
  | .wrote _ :: _ => .ok ()
  | .blocked late :: flushes =>
      if late then .error (.timeout "flushing WebSocket frame") else flushAll flushes
  | .failed source :: _ => .error (.io "flush WebSocket" source)

/-- What the network does while a frame is sent. -/
structure Sending where
  mask : Except String (Vector UInt8 4)
  writes : List Written
  flushes : List Written
  deriving Repr

/-- Sends one frame, masked with a fresh random mask. -/
def send (c : WsClient) (opcode : Opcode) (payload : Bytes) (sending : Sending) :
    Except NetError Unit × WsClient :=
  if payload.length > maxSendPayload ∨ (opcode.isControl ∧ payload.length > maxControlPayload) then
    (.error (.webSocket .bufferTooSmall), c)
  else
    match sending.mask with
    | .error text => (.error (.tls text), c)
    | .ok mask =>
        match encodeClientFrame opcode payload mask c.out with
        | (.error err, out) => (.error (.webSocket err), { c with out })
        | (.ok len, out) =>
            match writeAll (out.take len) sending.writes with
            | (.error err, wire) => (.error err, { c with out, wire := c.wire ++ wire })
            | (.ok (), wire) =>
                (flushAll sending.flushes, { c with out, wire := c.wire ++ wire })

/-- Sends a close frame, and drops what comes of it: 1000 is a normal closure. -/
def close (c : WsClient) (sending : Sending) : WsClient :=
  (c.send .close (toBe 2 1000) sending).2

end WsClient

end Bowst.Venue
