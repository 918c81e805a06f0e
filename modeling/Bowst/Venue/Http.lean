/-
Bowst.Venue.Http — reading a complete HTTP/1.1 response
(`bowst-venue/src/net/http.rs`).

A response is everything read until the connection closed. `parseResponse`
writes the body to the caller's buffer, so it returns the result and the buffer,
also when it fails. Text is its UTF-8 bytes: what the head is split and compared
by is ASCII, and `trim` strips the encodings of Unicode's white space.

`get` is its read loop: what the connection delivers is the list of what its
reads return.
-/
import Bowst.Core.Text
import Bowst.Core.Units
import Bowst.Lib.CrlfLines

namespace Bowst.Venue

open Bowst.Core Bowst.Lib

/-- Malformed or unacceptable HTTP response. -/
inductive HttpError where
  | incompleteHeaders
  | malformed (what : String)
  | unsupported (what : String)
  | truncatedBody
  | tooLarge (limit : Nat)
  deriving DecidableEq, Repr

/-- Status and venue rate-limit information from a response. -/
structure Response where
  status : Nat
  usedWeight1m : Option Nat
  retryAfterSecs : Option Nat
  deriving DecidableEq, Repr

/-- Largest header block accepted. -/
def maxHeaders : Nat := 16 * 1024

/-! ## Text -/

/-- The encodings of the characters that are Unicode white space. -/
def whiteSpace : List Bytes :=
  [[0x09], [0x0A], [0x0B], [0x0C], [0x0D], [0x20], [0xC2, 0x85], [0xC2, 0xA0],
    [0xE1, 0x9A, 0x80], [0xE2, 0x80, 0x80], [0xE2, 0x80, 0x81], [0xE2, 0x80, 0x82],
    [0xE2, 0x80, 0x83], [0xE2, 0x80, 0x84], [0xE2, 0x80, 0x85], [0xE2, 0x80, 0x86],
    [0xE2, 0x80, 0x87], [0xE2, 0x80, 0x88], [0xE2, 0x80, 0x89], [0xE2, 0x80, 0x8A],
    [0xE2, 0x80, 0xA8], [0xE2, 0x80, 0xA9], [0xE2, 0x80, 0xAF], [0xE2, 0x81, 0x9F],
    [0xE3, 0x80, 0x80]]

/-- Drops what stands at the front of a text and is one of `spaces`. No more than
the length of the text can be dropped, which is the fuel. -/
def dropSpaces (spaces : List Bytes) : Nat → Bytes → Bytes
  | 0, text => text
  | fuel + 1, text =>
      match spaces.find? (fun space => space.isPrefixOf text) with
      | some space => dropSpaces spaces fuel (text.drop space.length)
      | none => text

/-- `str::trim`. -/
def trim (text : Bytes) : Bytes :=
  let text := dropSpaces whiteSpace text.length text
  (dropSpaces (whiteSpace.map List.reverse) text.length text.reverse).reverse

/-- `u8::to_ascii_lowercase`. -/
def toAsciiLowercase (b : UInt8) : UInt8 := if 65 ≤ b ∧ b ≤ 90 then b + 32 else b

/-- `str::eq_ignore_ascii_case`. -/
def eqIgnoreAsciiCase (a b : Bytes) : Bool :=
  decide (a.map toAsciiLowercase = b.map toAsciiLowercase)

/-- `str::split_once` at an ASCII character. -/
def splitOnce (sep : UInt8) : Bytes → Option (Bytes × Bytes)
  | [] => none
  | b :: rest =>
      if b = sep then some ([], rest)
      else (splitOnce sep rest).map fun (before, after) => (b :: before, after)

/-- `str::splitn` at an ASCII character. -/
def splitn (sep : UInt8) : Nat → Bytes → List Bytes
  | 0, _ => []
  | 1, text => [text]
  | n + 2, text =>
      match splitOnce sep text with
      | none => [text]
      | some (before, after) => before :: splitn sep (n + 1) after

/-- The value of a hexadecimal digit. -/
def hexDigit (b : UInt8) : Option Nat :=
  if 48 ≤ b ∧ b ≤ 57 then some (b.toNat - 48)
  else if 97 ≤ b ∧ b ≤ 102 then some (b.toNat - 87)
  else if 65 ≤ b ∧ b ≤ 70 then some (b.toNat - 55)
  else none

/-- The number hexadecimal digits write. -/
def hexValue (digits : Bytes) : Nat :=
  digits.foldl (fun v b => v * 16 + (hexDigit b).getD 0) 0

/-- `usize::from_str_radix(text, 16)`: an optional plus sign, then digits only. -/
def parseHexUsize (text : Bytes) : Option Nat :=
  let digits := match text with
    | 43 :: rest => rest
    | _ => text
  if digits = [] ∨ digits.any (fun b => (hexDigit b).isNone) then none
  else if hexValue digits ≤ u64Max then some (hexValue digits)
  else none

/-! ## Headers -/

/-- What the header lines have said so far. -/
structure Headers where
  response : Response
  contentLength : Option Nat
  chunked : Bool
  deriving DecidableEq, Repr

/-- The status code in a status line. -/
def readStatus (line : Bytes) : Except HttpError Nat :=
  let parts := splitn 32 3 line
  if parts[0]? = some (ascii "HTTP/1.1") ∨ parts[0]? = some (ascii "HTTP/1.0") then
    match (parts[1]?.filter fun code => code.length == 3).bind
        (parseUnsigned (2 ^ 16 - 1)) with
    | some status => .ok status
    | none => .error (.malformed "status code")
  else .error (.malformed "status line")

/-- One header line. -/
def readHeader (headers : Headers) (line : Bytes) : Except HttpError Headers :=
  match splitOnce 58 line with
  | none => .error (.malformed "header line")
  | some (name, value) =>
      let value := trim value
      if eqIgnoreAsciiCase name (ascii "content-length") then
        match parseUnsigned u64Max value with
        | none => .error (.malformed "Content-Length")
        | some length =>
            if headers.contentLength.any (fun previous => previous != length) then
              .error (.malformed "conflicting Content-Length")
            else .ok { headers with contentLength := some length }
      else if eqIgnoreAsciiCase name (ascii "transfer-encoding") then
        if eqIgnoreAsciiCase value (ascii "chunked") then .ok { headers with chunked := true }
        else .error (.unsupported "transfer encoding")
      else if eqIgnoreAsciiCase name (ascii "content-encoding") then
        if eqIgnoreAsciiCase value (ascii "identity") then .ok headers
        else .error (.unsupported "content encoding")
      else if eqIgnoreAsciiCase name (ascii "x-mbx-used-weight-1m") then
        .ok { headers with response :=
          { headers.response with usedWeight1m := parseUnsigned (2 ^ 32 - 1) value } }
      else if eqIgnoreAsciiCase name (ascii "retry-after") then
        .ok { headers with response :=
          { headers.response with retryAfterSecs := parseUnsigned (2 ^ 32 - 1) value } }
      else .ok headers

/-- The loop over the header lines. -/
def readHeaders (headers : Headers) : List Bytes → Except HttpError Headers
  | [] => .ok headers
  | line :: lines =>
      match readHeader headers line with
      | .error err => .error err
      | .ok headers => readHeaders headers lines

/-- The status line and the header lines. -/
def readHead (head : Bytes) : Except HttpError Headers :=
  match splitCrlf head with
  | [] => .error (.malformed "status line")
  | statusLine :: lines =>
      match readStatus statusLine with
      | .error err => .error err
      | .ok status => readHeaders ⟨⟨status, none, none⟩, none, false⟩ lines

/-! ## Bodies -/

/-- `decode_chunked`: the loop over the chunks of `rest`, after `body`. -/
def decodeChunked (rest body : Bytes) (maxBody : Nat) : Except HttpError Unit × Bytes :=
  match findPattern crlf rest with
  | none => (.error .truncatedBody, body)
  | some lineEnd =>
      let sizeLine := rest.take lineEnd
      if validUtf8 sizeLine = false then (.error (.malformed "chunk size"), body)
      else
        match parseHexUsize (trim ((sizeLine.splitOn 59).headD [])) with
        | none => (.error (.malformed "chunk size"), body)
        | some size =>
            let data := rest.drop (lineEnd + 2)
            if size = 0 then (.ok (), body)
            else if saturatingAdd body.length size > maxBody then (.error (.tooLarge maxBody), body)
            else if data.length < size then (.error .truncatedBody, body)
            else
              let body := body ++ data.take size
              if crlf <+: data.drop size then
                decodeChunked ((data.drop size).drop 2) body maxBody
              else (.error (.malformed "chunk terminator"), body)
termination_by rest.length
decreasing_by
  simp [data] at *
  omega

/-- The body, by the framing the headers name. -/
def readBody (headers : Headers) (rest : Bytes) (maxBody : Nat) :
    Except HttpError Response × Bytes :=
  if headers.chunked then
    if headers.contentLength.isSome then
      (.error (.malformed "both chunked and Content-Length"), [])
    else
      match decodeChunked rest [] maxBody with
      | (.error err, body) => (.error err, body)
      | (.ok (), body) => (.ok headers.response, body)
  else
    match headers.contentLength with
    | some length =>
        if length > maxBody then (.error (.tooLarge maxBody), [])
        else if rest.length < length then (.error .truncatedBody, [])
        else (.ok headers.response, rest.take length)
    | none =>
        -- No framing headers: the body runs to the end of the connection.
        if rest.length > maxBody then (.error (.tooLarge maxBody), [])
        else (.ok headers.response, rest)

/-- `parse_response`: the result, and the body. -/
def parseResponse (raw : Bytes) (maxBody : Nat) : Except HttpError Response × Bytes :=
  match findPattern blankLine raw with
  | none => (.error .incompleteHeaders, [])
  | some headEnd =>
      if headEnd > maxHeaders then (.error (.tooLarge maxHeaders), [])
      else
        let head := raw.take headEnd
        if validUtf8 head = false then (.error (.malformed "headers"), [])
        else
          match readHead head with
          | .error err => (.error err, [])
          | .ok headers => readBody headers (raw.drop (headEnd + 4)) maxBody

/-! ## Connections -/

/-- What a read of the connection returns. -/
inductive ReadResult where
  | bytes (chunk : Bytes)
  | closed
  | interrupted
  | timedOut
  | unexpectedEof
  | failed
  deriving DecidableEq, Repr

/-- The errors of `get`. -/
inductive GetError where
  | http (err : HttpError)
  | timeout
  | io
  deriving DecidableEq, Repr

/-- The read loop of `get`. A server that closes the connection abruptly ends
the input like one that closes it properly. -/
def readRaw (limit maxBody : Nat) (raw : Bytes) : List ReadResult → Except GetError Bytes
  | [] => .ok raw
  | .bytes chunk :: reads =>
      if chunk = [] then .ok raw
      else if saturatingAdd raw.length chunk.length > limit then .error (.http (.tooLarge maxBody))
      else readRaw limit maxBody (raw ++ chunk) reads
  | .closed :: _ => .ok raw
  | .interrupted :: reads => readRaw limit maxBody raw reads
  | .timedOut :: _ => .error .timeout
  | .unexpectedEof :: _ => .ok raw
  | .failed :: _ => .error .io

/-- `get`, once the request is sent: the response and the body. -/
def get (reads : List ReadResult) (maxBody : Nat) : Except GetError (Response × Bytes) :=
  match readRaw (saturatingAdd maxBody maxHeaders) maxBody [] reads with
  | .error err => .error err
  | .ok raw =>
      match parseResponse raw maxBody with
      | (.error err, _) => .error (.http err)
      | (.ok response, body) => .ok (response, body)

end Bowst.Venue
