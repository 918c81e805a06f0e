/-
Bowst.Telemetry.Server — a minimal HTTP endpoint that serves `GET /metrics`
(`bowst-telemetry/src/server.rs`).

A client is what the reads of its connection return, and whether its writes succeed. A
read returns at most what its buffer holds, or fails: a client that stalls fails by its
timeout. The render function is given the number of times that it was called before.
-/
import Bowst.Core.Text
import Bowst.Core.Units
import Bowst.Lib.CrlfLines

namespace Bowst.Telemetry

open Bowst.Core Bowst.Lib

/-- Largest request head accepted, in bytes. -/
def maxRequest : Nat := 8 * 1024

/-- Most bytes discarded from a client after responding. -/
def drainLimit : Nat := 64 * 1024

/-- What one read fills: the `sink` of `handle`. -/
def sinkChunk : Nat := 4096

/-- The content type of the text of an exposition. -/
def contentType : Bytes := ascii "text/plain; version=0.0.4; charset=utf-8"

/-- A client. A read that fails is `none`; behind the last one every read fails. -/
structure Client where
  reads : List (Option Bytes)
  writes : Bool
  deriving DecidableEq, Repr

inductive Head where
  | complete (head : Bytes)
  | tooLarge
  deriving DecidableEq, Repr

/-- Reads up to the blank line ending the request head. Also the reads that are left. -/
def readHead (head : Bytes) : List (Option Bytes) → Option (Head × List (Option Bytes))
  | [] => none
  | none :: _ => none
  | some chunk :: reads =>
      if chunk = [] then some (.complete head, reads)
      else
        let head := head ++ chunk
        if head.length > maxRequest then some (.tooLarge, reads)
        else if (findPattern blankLine head).isSome then some (.complete head, reads)
        else readHead head reads

/-- A response without a body. -/
def status (code : Nat) (reason : String) : Bytes :=
  ascii "HTTP/1.1 " ++ natText code ++ ascii " " ++ ascii reason ++
    ascii "\r\nContent-Length: 0\r\nConnection: close\r\n" ++
    (if code = 405 then ascii "Allow: GET\r\n" else []) ++ ascii "\r\n"

/-- The response with the metrics. -/
def metricsResponse (body : Bytes) : Bytes :=
  ascii "HTTP/1.1 200 OK\r\nContent-Type: " ++ contentType ++ ascii "\r\nContent-Length: " ++
    natText body.length ++ ascii "\r\nCache-Control: no-store\r\nConnection: close\r\n\r\n" ++ body

/-- `split` at a byte, `next`. -/
def firstPart (sep : UInt8) (text : Bytes) : Bytes := text.takeWhile (· != sep)

/-- `strip_suffix` of a CR, or nothing. -/
def stripReturn (line : Bytes) : Bytes := if line.getLast? = some 13 then line.dropLast else []

/-- What `respond` decides: the metrics, or a status. -/
inductive Answer where
  | metrics
  | status (code : Nat) (reason : String)
  deriving DecidableEq, Repr

/-- The answer to a request line. -/
def answer (line : Bytes) : Answer :=
  match line.splitOn 32 with
  | [method, target, version] =>
      if ¬ ascii "HTTP/1." <+: version then .status 400 "Bad Request"
      else if method = ascii "GET" then
        if firstPart 63 target = ascii "/metrics" then .metrics else .status 404 "Not Found"
      else .status 405 "Method Not Allowed"
  | _ => .status 400 "Bad Request"

section Respond

variable (render : Nat → Bytes)

/-- The response to a head, and how often the metrics were rendered behind it. -/
def respond (rendered : Nat) (head : Bytes) : Bytes × Nat :=
  match answer (stripReturn (firstPart 10 head)) with
  | .metrics => (metricsResponse (render rendered), rendered + 1)
  | .status code reason => (status code reason, rendered)

/-- How many bytes are discarded, `drained` of them so far. -/
def drain (drained : Nat) : List (Option Bytes) → Nat
  | [] => drained
  | none :: _ => drained
  | some chunk :: reads =>
      if drained < drainLimit then
        if chunk = [] then drained else drain (saturatingAdd drained chunk.length) reads
      else drained

/-- One exchange. `response` is what is written, if anything is. -/
structure Exchange where
  response : Option Bytes
  rendered : Nat
  drained : Nat
  deriving DecidableEq, Repr

def handle (rendered : Nat) (client : Client) : Exchange :=
  match readHead [] client.reads with
  | none => ⟨none, rendered, 0⟩
  | some (head, reads) =>
      let (response, rendered) :=
        match head with
        | .complete head => respond render rendered head
        | .tooLarge => (status 431 "Request Header Fields Too Large", rendered)
      ⟨some response, rendered, if client.writes then drain 0 reads else 0⟩

/-- The loop of `serve`: the clients that it accepts, one at a time. -/
def serve (rendered : Nat) : List Client → List Exchange
  | [] => []
  | client :: clients =>
      handle render rendered client :: serve (handle render rendered client).rendered clients

end Respond

end Bowst.Telemetry
