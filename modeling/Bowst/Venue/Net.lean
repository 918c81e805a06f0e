/-
Bowst.Venue.Net — network errors and URLs (`bowst-venue/src/net/mod.rs`).

The texts of errors of the operating system and of the TLS package are theirs: an
error that carries one has it as an argument.
-/
import Bowst.Venue.Frame
import Bowst.Venue.Http

namespace Bowst.Venue

open Bowst.Core Bowst.Lib

/-! ## Errors -/

/-- The `Display` text of an HTTP error. -/
def HttpError.toText : HttpError → String
  | .incompleteHeaders => "incomplete response headers"
  | .malformed what => s!"malformed {what}"
  | .unsupported what => s!"unsupported: {what}"
  | .truncatedBody => "truncated body"
  | .tooLarge limit => s!"response larger than {limit} bytes"

/-- The `Display` text of a WebSocket error. -/
def WsError.toText : WsError → String
  | .handshake text => s!"invalid handshake response: {text}"
  | .handshakeTooLarge => "handshake response headers too large"
  | .reservedBits => "reserved bits set in frame header"
  | .unknownOpcode bits => "unknown opcode 0x" ++ String.ofList (Nat.toDigits 16 bits.toNat)
  | .maskedServerFrame => "server sent a masked frame"
  | .invalidLength => "non-minimal or invalid payload length"
  | .invalidControlFrame => "invalid control frame"
  | .frameTooLarge len limit => s!"frame of {len} bytes exceeds limit of {limit}"
  | .messageTooLarge limit => s!"message exceeds limit of {limit} bytes"
  | .unexpectedFragment => "unexpected fragment"
  | .malformedClose => "malformed close frame"
  | .bufferTooSmall => "output buffer too small"

/-- Network, TLS or HTTP failure. -/
inductive NetError where
  | invalidUrl (what : String)
  | noRootCertificates
  | io (op source : String)
  | tls (text : String)
  | closed
  | timeout (op : String)
  | http (err : HttpError)
  | webSocket (err : WsError)
  deriving DecidableEq, Repr

/-- The `Display` text of a network error. -/
def NetError.toText : NetError → String
  | .invalidUrl what => s!"invalid URL: {what}"
  | .noRootCertificates => "no trusted root certificates could be loaded"
  | .io op source => s!"{op}: {source}"
  | .tls text => s!"TLS: {text}"
  | .closed => "connection closed by peer"
  | .timeout op => s!"timed out: {op}"
  | .http err => s!"HTTP: {err.toText}"
  | .webSocket err => s!"WebSocket: {err.toText}"

/-! ## URLs -/

/-- URL schemes this transport speaks. -/
inductive Scheme where
  | ws
  | wss
  | http
  | https
  deriving DecidableEq, Repr

/-- Whether the connection uses TLS. -/
def Scheme.isTls : Scheme → Bool
  | .wss | .https => true
  | .ws | .http => false

def Scheme.defaultPort (scheme : Scheme) : UInt16 := if scheme.isTls then 443 else 80

/-- The scheme of a name. -/
def Scheme.ofName (name : Bytes) : Option Scheme :=
  if name = ascii "ws" then some .ws
  else if name = ascii "wss" then some .wss
  else if name = ascii "http" then some .http
  else if name = ascii "https" then some .https
  else none

/-- A parsed `scheme://host[:port][/path][?query]` URL. -/
structure Url where
  scheme : Scheme
  host : Bytes
  port : UInt16
  path : Bytes
  deriving DecidableEq, Repr

namespace Url

/-- What stands between the scheme and the rest. -/
def schemeEnd : Bytes := ascii "://"

/-- Whether a byte ends the authority: a slash or a question mark. -/
def endsAuthority (b : UInt8) : Bool := b == 47 || b == 63

/-- `port.parse::<u16>()`, which must not be zero. -/
def parsePort (text : Bytes) : Option UInt16 :=
  ((parseUnsigned (2 ^ 16 - 1) text).map UInt16.ofNat).filter fun port => port != 0

/-- The host and the port of an authority. -/
def parseAuthority (scheme : Scheme) (authority : Bytes) : Except NetError (Bytes × UInt16) :=
  match splitOnce 58 authority with
  | some (host, port) =>
      match parsePort port with
      | none => .error (.invalidUrl "invalid port")
      | some port => .ok (host, port)
  | none => .ok (authority, scheme.defaultPort)

/-- What comes after the scheme. -/
def parseRest (scheme : Scheme) (rest : Bytes) : Except NetError Url :=
  if rest.any (fun b => b == 35 || b == 32) || rest.any (fun b => decide (128 ≤ b)) then
    .error (.invalidUrl "fragment, space or non-ASCII")
  else
    let authority := rest.takeWhile fun b => !endsAuthority b
    let path := rest.dropWhile fun b => !endsAuthority b
    -- An at sign is fine in a path or query, not in the authority.
    if authority.any (fun b => b == 64 || b == 91) then
      .error (.invalidUrl "user info or IPv6 literal")
    else
      match parseAuthority scheme authority with
      | .error err => .error err
      | .ok (host, port) =>
          if host = [] then .error (.invalidUrl "missing host")
          else .ok ⟨scheme, host, port, if path.head? = some 47 then path else 47 :: path⟩

/-- Parses a URL. User info, fragments and IPv6 literals are rejected. -/
def parse (text : Bytes) : Except NetError Url :=
  match findPattern schemeEnd text with
  | none => .error (.invalidUrl "missing scheme")
  | some at_ =>
      match Scheme.ofName (text.take at_) with
      | none => .error (.invalidUrl "unsupported scheme")
      | some scheme => parseRest scheme (text.drop (at_ + 3))

/-- Value for the HTTP `Host` header: the port is included only if it is not the
scheme's default. -/
def hostHeader (url : Url) : Bytes :=
  if url.port = url.scheme.defaultPort then url.host
  else url.host ++ 58 :: natText url.port.toNat

end Url

/-- `trim_end_matches('/')`. -/
def trimSlashes (text : Bytes) : Bytes := (text.reverse.dropWhile (· == 47)).reverse

end Bowst.Venue
