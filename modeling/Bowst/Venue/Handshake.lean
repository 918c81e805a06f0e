/-
Bowst.Venue.Handshake — the HTTP/1.1 upgrade that opens a WebSocket connection
(`bowst-venue/src/ws/handshake.rs`).

SHA-1 is of a package of its own: the digest is an argument. Text is its UTF-8
bytes, as in the HTTP client.
-/
import Bowst.Lib.Base64
import Bowst.Venue.Frame
import Bowst.Venue.Http

namespace Bowst.Venue

open Bowst.Core Bowst.Lib

/-- Largest upgrade response header block accepted. -/
def maxResponseHeaders : Nat := 8 * 1024

/-- Length of a base64-encoded 16-byte key. -/
def keyLen : Nat := 24

/-- Length of a base64-encoded SHA-1 digest. -/
def acceptLen : Nat := 28

/-- The value that the key is hashed with. -/
def acceptGuid : Bytes := ascii "258EAFA5-E914-47DA-95CA-C5AB0DC85B11"

/-! ## Base64 -/

/-- `symbol` of `base64_encode`. -/
def base64Symbol (index : Nat) : UInt8 := Base64.alphabet.getD (index &&& 0x3F) 61

/-- The loop body of `base64_encode`: one to three bytes in four symbols. -/
def encodeChunk (chunk : Bytes) : Bytes :=
  let n := (chunk.getD 0 0).toNat <<< 16 ||| (chunk.getD 1 0).toNat <<< 8 ||| (chunk.getD 2 0).toNat
  [base64Symbol (n >>> 18), base64Symbol (n >>> 12),
    if chunk.length > 1 then base64Symbol (n >>> 6) else 61,
    if chunk.length > 2 then base64Symbol n else 61]

/-- `base64_encode`: what `out` holds after it. -/
def base64Encode (input out : Bytes) : Bytes :=
  if input = [] ∨ out = [] then out
  else
    (encodeChunk (input.take 3)).take (out.take 4).length ++
      base64Encode (input.drop 3) (out.drop 4)
termination_by input.length
decreasing_by
  rename_i h
  have hpos := List.length_pos_iff.mpr (not_or.mp h).1
  simp
  omega

/-! ## Requests -/

section Digest

variable (sha1 : Bytes → Vector UInt8 20)

/-- The `Sec-WebSocket-Accept` value a server must return for `key`. -/
def acceptForKey (key : Bytes) : Bytes :=
  base64Encode (sha1 (key ++ acceptGuid)).toList (List.replicate acceptLen 0)

end Digest

/-- One upgrade attempt: the random key and the accept value the server must echo. -/
structure Handshake where
  keyBytes : Bytes
  acceptBytes : Bytes
  deriving DecidableEq, Repr

namespace Handshake

/-- Starts a handshake with 16 random bytes as the key. -/
def new (sha1 : Bytes → Vector UInt8 20) (random : Vector UInt8 16) : Handshake :=
  let key := base64Encode random.toList (List.replicate keyLen 0)
  ⟨key, acceptForKey sha1 key⟩

/-- The `Sec-WebSocket-Key` value. -/
def key (h : Handshake) : Bytes := if validUtf8 h.keyBytes then h.keyBytes else []

/-- The `Sec-WebSocket-Accept` value the server must return. -/
def expectedAccept (h : Handshake) : Bytes :=
  if validUtf8 h.acceptBytes then h.acceptBytes else []

/-- `write_request`: the upgrade request for `path` on `host`. -/
def writeRequest (h : Handshake) (host path : Bytes) : Bytes :=
  ascii "GET " ++ path ++ ascii " HTTP/1.1\r\nHost: " ++ host ++
    ascii "\r\nUpgrade: websocket\r\nConnection: Upgrade\r\nSec-WebSocket-Key: " ++ h.key ++
    ascii "\r\nSec-WebSocket-Version: 13\r\n\r\n"

/-! ## Responses -/

/-- What the header lines have said so far. -/
structure Seen where
  upgrade : Bool
  connection : Bool
  accept : Bool
  deriving DecidableEq, Repr

/-- Whether one of the tokens of a `Connection` value is `upgrade`. -/
def hasUpgradeToken (value : Bytes) : Bool :=
  (value.splitOn 44).any fun token => eqIgnoreAsciiCase (trim token) (ascii "upgrade")

/-- One header line. -/
def readLine (h : Handshake) (seen : Seen) (line : Bytes) : Except WsError Seen :=
  match splitOnce 58 line with
  | none => .error (.handshake "malformed header line")
  | some (name, value) =>
      let value := trim value
      if eqIgnoreAsciiCase name (ascii "upgrade") then
        .ok { seen with upgrade := eqIgnoreAsciiCase value (ascii "websocket") }
      else if eqIgnoreAsciiCase name (ascii "connection") then
        .ok { seen with connection := hasUpgradeToken value }
      else if eqIgnoreAsciiCase name (ascii "sec-websocket-accept") then
        if value = h.expectedAccept then .ok { seen with accept := true }
        else .error (.handshake "Sec-WebSocket-Accept does not match key")
      else if eqIgnoreAsciiCase name (ascii "sec-websocket-extensions") ∨
          eqIgnoreAsciiCase name (ascii "sec-websocket-protocol") then
        .error (.handshake "unrequested extension or subprotocol")
      else .ok seen

/-- The loop over the header lines. -/
def readLines (h : Handshake) (seen : Seen) : List Bytes → Except WsError Seen
  | [] => .ok seen
  | line :: lines =>
      match h.readLine seen line with
      | .error err => .error err
      | .ok seen => h.readLines seen lines

/-- Whether a status line says that the server switches protocols. -/
def isSwitching (status : Bytes) : Bool :=
  let parts := status.splitOn 32
  decide (parts[0]? = some (ascii "HTTP/1.1") ∧ parts[1]? = some (ascii "101"))

/-- The lines of a header block. -/
def readHead (h : Handshake) (head : Bytes) : Except WsError Unit :=
  let lines := splitCrlf head
  if isSwitching (lines.headD []) = false then .error (.handshake "status is not 101")
  else
    match h.readLines ⟨false, false, false⟩ lines.tail with
    | .error err => .error err
    | .ok seen =>
        if seen.upgrade = false then .error (.handshake "missing Upgrade: websocket")
        else if seen.connection = false then .error (.handshake "missing Connection: Upgrade")
        else if seen.accept = false then .error (.handshake "missing Sec-WebSocket-Accept")
        else .ok ()

/-- Validates the server's response: `none` while the header block is incomplete,
and its length once valid. -/
def parseResponse (h : Handshake) (buf : Bytes) : Except WsError (Option Nat) :=
  match findPattern blankLine buf with
  | none => if buf.length > maxResponseHeaders then .error .handshakeTooLarge else .ok none
  | some fin =>
      let headerLen := fin + 4
      if headerLen > maxResponseHeaders then .error .handshakeTooLarge
      else
        let head := buf.take fin
        if validUtf8 head = false then .error (.handshake "headers are not UTF-8")
        else
          match h.readHead head with
          | .error err => .error err
          | .ok () => .ok (some headerLen)

end Handshake

end Bowst.Venue
