/-
Bowst.Core.OrderId — client order IDs (`bowst-core/src/ids.rs`).

Text is its bytes, as in `Bowst.Core.Text`.
-/
import Bowst.Core.Fixed
import Bowst.Lib.Bytes

namespace Bowst.Core

open Bowst.Lib

/-- `PREFIX`: in front of every client order ID. -/
def idPrefix : Bytes := ascii "bw"

/-- `HEX`. -/
def hexAlphabet : Bytes := ascii "0123456789abcdef"

def hexDigits : Nat := 16

/-- Our identifier for an order: a session number and a sequence within it. -/
structure ClientOrderId where
  session : UInt32
  sequence : UInt32
  deriving DecidableEq, Repr

/-- The loop of `write_hex`, over the slots from the last to the first. -/
def hexSlots : Nat → UInt32 → Bytes
  | 0, _ => []
  | slots + 1, rest =>
      (hexAlphabet[(rest.toUInt8 &&& 0xf).toNat]?).getD 48 :: hexSlots slots (rest >>> 4)

/-- Writes `value` as lowercase hex into `slots` bytes, most significant nibble first. -/
def writeHex (slots : Nat) (value : UInt32) : Bytes := (hexSlots slots value).reverse

/-- The text form of an ID. -/
structure ClientOrderIdText where
  bytes : Bytes
  deriving DecidableEq, Repr

/-- The encoded text. -/
def ClientOrderIdText.asStr (text : ClientOrderIdText) : Bytes :=
  if validUtf8 text.bytes then text.bytes else []

/-- `char::to_digit` in base 16: either case. -/
def hexValue (byte : UInt8) : Option Nat :=
  if 48 ≤ byte ∧ byte ≤ 57 then some (byte.toNat - 48)
  else if 97 ≤ byte ∧ byte ≤ 102 then some (byte.toNat - 87)
  else if 65 ≤ byte ∧ byte ≤ 70 then some (byte.toNat - 55)
  else none

/-- The digit loop of `u32::from_str_radix`. `none` for a character that is no digit
and on overflow. -/
def radixDigits (value : Nat) : Bytes → Option Nat
  | [] => some value
  | byte :: rest =>
      (hexValue byte).bind fun digit =>
        if value * 16 + digit < 2 ^ 32 then radixDigits (value * 16 + digit) rest else none

/-- The digits behind an optional plus sign. -/
def stripPlus : Bytes → Bytes
  | 43 :: rest => rest
  | text => text

/-- `u32::from_str_radix(text, 16)`: an optional plus sign, then at least one digit. -/
def fromStrRadix (text : Bytes) : Option UInt32 :=
  if stripPlus text = [] then none else (radixDigits 0 (stripPlus text)).map UInt32.ofNat

namespace ClientOrderId

/-- Encodes as venue text. -/
def encode (id : ClientOrderId) : ClientOrderIdText :=
  ⟨idPrefix ++ (writeHex (hexDigits / 2) id.session ++ writeHex (hexDigits / 2) id.sequence)⟩

/-- Decodes venue text. `none` for IDs we did not generate. -/
def decode (text : Bytes) : Option ClientOrderId :=
  if idPrefix <+: text then
    let digits := text.drop idPrefix.length
    if digits.length ≠ hexDigits ∨ !digits.all hexAlphabet.contains then none
    else do
      let session ← fromStrRadix (digits.take (hexDigits / 2))
      let sequence ← fromStrRadix (digits.drop (hexDigits / 2))
      some ⟨session, sequence⟩
  else none

end ClientOrderId

/-- Hands out sequential IDs for one session. `upcoming` is the field `next`. -/
structure ClientOrderIdGen where
  session : UInt32
  upcoming : Option UInt32
  deriving DecidableEq, Repr

/-- `u32::checked_add` of one. -/
def checkedSucc (n : UInt32) : Option UInt32 := if n.toNat + 1 < 2 ^ 32 then some (n + 1) else none

namespace ClientOrderIdGen

/-- Starts a session at sequence 0. -/
def new (session : UInt32) : ClientOrderIdGen := ⟨session, some 0⟩

/-- The next ID, or `none` once the sequence numbers of this session are used up. -/
def next (gen : ClientOrderIdGen) : Option ClientOrderId × ClientOrderIdGen :=
  match gen.upcoming with
  | none => (none, gen)
  | some sequence =>
      (some ⟨gen.session, sequence⟩, { gen with upcoming := checkedSucc sequence })

/-- What `calls` calls of `next` return. -/
def issue : Nat → ClientOrderIdGen → List (Option ClientOrderId)
  | 0, _ => []
  | calls + 1, gen => gen.next.1 :: issue calls gen.next.2

end ClientOrderIdGen

end Bowst.Core
