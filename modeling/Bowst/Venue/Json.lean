/-
Bowst.Venue.Json — the pull reader for venue messages (`bowst-venue/src/json.rs`).

A reader is what is left of the buffer from its position on, so `buf.get(pos)` is
the head of `rest` and the input has ended when `rest` is empty. Every operation
moves forward only. A failed operation leaves no reader: the source's callers
all return the error at once.

Loops over members run on a count of rounds larger than the bytes left, and each
round reads at least one byte; nesting runs on the levels left to `maxDepth`.
-/
import Bowst.Core.Fixed
import Bowst.Lib.Bytes

namespace Bowst.Venue

open Bowst.Lib
open Bowst.Core (Bytes)

/-- Deepest nesting of objects and arrays accepted. -/
def maxDepth : Nat := 32

/-- Malformed or unsupported JSON, with the byte offset where it was found. -/
inductive JsonError where
  | unexpectedEnd
  | unexpected (pos : Nat) (expected : String)
  | tooDeep (pos : Nat)
  | escapedString (pos : Nat)
  | invalidInteger (pos : Nat)
  deriving DecidableEq, Repr

def JsonError.toText : JsonError → String
  | .unexpectedEnd => "unexpected end of input"
  | .unexpected pos expected => s!"expected {expected} at byte {pos}"
  | .tooDeep pos => s!"nesting deeper than {maxDepth} at byte {pos}"
  | .escapedString pos => s!"escaped string at byte {pos}"
  | .invalidInteger pos => s!"invalid integer at byte {pos}"

/-- Pull reader over one JSON document. -/
structure Reader where
  rest : Bytes
  pos : Nat
  depth : Nat
  afterValue : Bool
  deriving DecidableEq, Repr

/-- `b' ' | b'\t' | b'\n' | b'\r'`. -/
def isWhitespace (byte : UInt8) : Bool := byte = 32 || byte = 9 || byte = 10 || byte = 13

/-- `b'0'..=b'9'`. -/
def isDigit (byte : UInt8) : Bool := decide (48 ≤ byte ∧ byte ≤ 57)

/-- The digit loop of `u64`: the value, and how many digits there were. -/
def u64Digits (start : Nat) : Nat → Bytes → Except JsonError (Nat × Nat)
  | value, [] => .ok (value, 0)
  | value, byte :: rest =>
      if isDigit byte then
        let next := value * 10 + (byte - 48).toNat
        if next < 2 ^ 64 then do
          let (value, digits) ← u64Digits start next rest
          .ok (value, digits + 1)
        else .error (.invalidInteger start)
      else .ok (value, 0)

namespace Reader

/-- Starts reading `buf` from the beginning. -/
def new (buf : Bytes) : Reader := ⟨buf, 0, 0, false⟩

def peek (r : Reader) : Option UInt8 := r.rest.head?

/-- Moves `n` bytes on. -/
def advance (r : Reader) (n : Nat) : Reader := { r with rest := r.rest.drop n, pos := r.pos + n }

def skipWhitespace (r : Reader) : Reader := r.advance (r.rest.takeWhile isWhitespace).length

def unexpected (r : Reader) (expected : String) : JsonError :=
  if r.rest.isEmpty then .unexpectedEnd else .unexpected r.pos expected

def expectByte (r : Reader) (byte : UInt8) (expected : String) : Except JsonError Reader :=
  let r := r.skipWhitespace
  if r.peek = some byte then .ok (r.advance 1) else .error (r.unexpected expected)

def enter (r : Reader) (opening : UInt8) (expected : String) : Except JsonError Reader := do
  let r ← r.expectByte opening expected
  if r.depth ≥ maxDepth then .error (.tooDeep r.pos)
  else .ok { r with depth := r.depth + 1, afterValue := false }

def leave (r : Reader) : Reader := { r.advance 1 with depth := r.depth - 1, afterValue := true }

/-- Consumes the separator before the next member of the current container.
`false`, with `close` consumed, at the end of the container. -/
def nextMember (r : Reader) (close : UInt8) (expected : String) :
    Except JsonError (Bool × Reader) :=
  let r := r.skipWhitespace
  if r.peek = some close then .ok (false, r.leave)
  else if r.afterValue then do
    let r ← r.expectByte 44 expected
    .ok (true, r)
  else .ok (true, r)

/-- How many bytes there are up to the first `"` or `\`; control characters are
rejected. -/
def stringEnd (r : Reader) : Except JsonError Nat :=
  match r.rest.findIdx? fun b => b = 34 || b = 92 || b < 0x20 with
  | none => .error .unexpectedEnd
  | some found =>
      if (r.rest[found]?).any (· < 0x20) then
        .error ((r.advance found).unexpected "string character")
      else .ok found

/-- What `str` and `str_bytes` share: where the string starts and its bytes. -/
def quoted (r : Reader) : Except JsonError (Nat × Bytes × Reader) := do
  let r ← r.expectByte 34 "string"
  let found ← r.stringEnd
  if r.rest[found]? = some 92 then .error (.escapedString (r.pos + found))
  else .ok (r.pos, r.rest.take found, { r.advance (found + 1) with afterValue := true })

/-- Reads a string without escape sequences. -/
def str (r : Reader) : Except JsonError (Bytes × Reader) := do
  let (start, text, r) ← r.quoted
  if validUtf8 text then .ok (text, r) else .error (.unexpected start "UTF-8")

/-- Reads a string without escape sequences, not checked for UTF-8. -/
def strBytes (r : Reader) : Except JsonError (Bytes × Reader) := do
  let (_, text, r) ← r.quoted
  .ok (text, r)

/-- Consumes `{`. -/
def beginObject (r : Reader) : Except JsonError Reader := r.enter 123 "'\x7b'"

/-- Reads the next key of the current object and its `:`. `none` at the closing
`}`. -/
def nextKey (r : Reader) : Except JsonError (Option Bytes × Reader) := do
  let (more, r) ← r.nextMember 125 "',' or '\x7d'"
  if !more then .ok (none, r)
  else do
    let (key, r) ← r.str
    let r ← ({ r with afterValue := false } : Reader).expectByte 58 "':'"
    .ok (some key, r)

/-- Consumes `[`. -/
def beginArray (r : Reader) : Except JsonError Reader := r.enter 91 "'['"

/-- Moves to the next element of the current array. `false` at the closing `]`. -/
def nextElement (r : Reader) : Except JsonError (Bool × Reader) := r.nextMember 93 "',' or ']'"

/-- Reads a non-negative integer that fits in a `u64`. -/
def u64 (r : Reader) : Except JsonError (Nat × Reader) := do
  let start := r.skipWhitespace
  let (value, digits) ← u64Digits start.pos 0 start.rest
  let r := start.advance digits
  let leadingZero := decide (digits > 1) && start.peek = some 48
  -- `.`, `e`, `E`, `-` and `+` would continue the number.
  let continues := r.peek.any fun b => b = 46 || b = 101 || b = 69 || b = 45 || b = 43
  if digits = 0 || leadingZero || continues then .error (.invalidInteger start.pos)
  else .ok (value, { r with afterValue := true })

/-- Consumes `word` if it is next. -/
def literal (r : Reader) (word : Bytes) : Option Reader :=
  if r.rest.take word.length = word then some { r.advance word.length with afterValue := true }
  else none

/-- The loop of `skip_string`, from after the opening quote. -/
def skipStringLoop : Nat → Reader → Except JsonError Reader
  | 0, _ => .error .unexpectedEnd
  | rounds + 1, r => do
      let found ← r.stringEnd
      if r.rest[found]? = some 34 then .ok { r.advance (found + 1) with afterValue := true }
      -- Backslash: skip it and the escaped byte.
      else if found + 1 ≥ r.rest.length then .error .unexpectedEnd
      else skipStringLoop rounds (r.advance (found + 2))

def skipString (r : Reader) : Except JsonError Reader :=
  skipStringLoop (r.rest.length + 1) (r.advance 1)

/-- A byte that a number may have: `-`, `+`, `.`, `e`, `E` or a digit. -/
def isNumberByte (b : UInt8) : Bool :=
  b = 45 || b = 43 || b = 46 || b = 101 || b = 69 || isDigit b

def skipNumber (r : Reader) : Except JsonError Reader :=
  let digits := (r.rest.takeWhile isNumberByte).length
  if digits = 0 then .error (r.unexpected "number")
  else .ok { r.advance digits with afterValue := true }

/-- The loop of `skip` over the members of an object, given how to skip one. -/
def skipMembers (skip : Reader → Except JsonError Reader) : Nat → Reader → Except JsonError Reader
  | 0, _ => .error .unexpectedEnd
  | rounds + 1, r => do
      let (key, r) ← r.nextKey
      if key.isNone then .ok r
      else do
        let r ← skip r
        skipMembers skip rounds r

/-- The loop of `skip` over the elements of an array. -/
def skipElements (skip : Reader → Except JsonError Reader) :
    Nat → Reader → Except JsonError Reader
  | 0, _ => .error .unexpectedEnd
  | rounds + 1, r => do
      let (more, r) ← r.nextElement
      if !more then .ok r
      else do
        let r ← skip r
        skipElements skip rounds r

/-- `skip` with this many levels left. -/
def skipLevels : Nat → Reader → Except JsonError Reader
  | 0, _ => .error .unexpectedEnd
  | levels + 1, r =>
      let r := r.skipWhitespace
      match r.peek with
      | none => .error .unexpectedEnd
      | some byte =>
          if byte = 123 then do
            let r ← r.beginObject
            skipMembers (skipLevels levels) (r.rest.length + 1) r
          else if byte = 91 then do
            let r ← r.beginArray
            skipElements (skipLevels levels) (r.rest.length + 1) r
          else if byte = 34 then r.skipString
          else if byte = 116 || byte = 102 || byte = 110 then
            match (r.literal (ascii "true")).orElse fun _ =>
                (r.literal (ascii "false")).orElse fun _ => r.literal (ascii "null") with
            | some r => .ok r
            | none => .error (r.unexpected "value")
          else if byte = 45 || isDigit byte then r.skipNumber
          else .error (r.unexpected "value")

/-- Skips the next value of any type, validating its structure. A value at depth
`maxDepth` can still be read if it opens nothing. -/
def skip (r : Reader) : Except JsonError Reader := skipLevels (maxDepth + 1 - r.depth) r

/-- Checks that only whitespace remains after the document. -/
def finish (r : Reader) : Except JsonError Unit :=
  let r := r.skipWhitespace
  if r.depth ≠ 0 then .error .unexpectedEnd
  else if !r.rest.isEmpty then .error (r.unexpected "end of input")
  else .ok ()

end Reader

end Bowst.Venue
