/-
Bowst.Core.Text — decimal text and lines of text: `Display` and `FromStr` of the
unsigned integers, `Display` of `Dec` and `Increment`
(`bowst-core/src/fixed.rs`), and `str::lines`.

Text is its bytes. The separators are ASCII, so splitting the bytes of a text
splits the text.
-/
import Bowst.Core.Fixed
import Bowst.Lib.Bytes

namespace Bowst.Core

open Bowst.Lib

/-- The text of an unsigned integer. -/
def natText (n : Nat) : Bytes := ascii (toString n)

/-- `parse` of an unsigned integer type with largest value `max`: an optional
plus sign, then digits only. -/
def parseUnsigned (max : Nat) (text : Bytes) : Option Nat :=
  let digits := match text with
    | 43 :: rest => rest
    | _ => text
  if digits = [] ∨ digits.any (fun byte => !DecScan.isDigit byte) then none
  else
    let value := digits.foldl (fun v byte => v * 10 + (byte.toNat - 48)) 0
    if value ≤ max then some value else none

/-- The `Display` text of a decimal as part of another text. A failed `Display`
leaves nothing there; `Dec.text_eq` says that it does not fail. -/
def Dec.text (d : Dec) : Bytes := d.display.toOption.getD []

/-- The `Display` text of an increment. -/
def Increment.text (q : Increment) : Bytes := q.asDec.text

/-- `strip_suffix('\r')` where there is one. -/
def stripReturn (line : Bytes) : Bytes := if line.getLast? = some 13 then line.dropLast else line

/-- `str::lines`: a line ending belongs to the line before it, so that there is
no empty line after the last one. Only a line that has its ending loses a
carriage return. -/
def lines (text : Bytes) : List Bytes :=
  let pieces := text.splitOn 10
  pieces.dropLast.map stripReturn ++
    match pieces.getLast? with
    | none | some [] => []
    | some last => [last]

/-- Lines, each with its line ending. -/
def unlines (ls : List Bytes) : Bytes := ls.flatMap fun line => line ++ [10]

end Bowst.Core
