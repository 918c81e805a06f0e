/-
Bowst.Venue.ExchangeInfo — the order rules for each symbol
(`bowst-venue/src/binance/exchange_info.rs`).

`Dec::parse` and `Increment::parse` take a text that is UTF-8, and read its bytes.
-/
import Bowst.Venue.Depth

namespace Bowst.Venue

open Bowst.Lib Bowst.Core

/-- Order rules for one symbol. -/
structure SymbolRules where
  symbol : Symbol
  trading : Bool
  tick : Increment
  lot : Increment
  minNotional : Dec
  deriving DecidableEq, Repr

def number (text : Bytes) (field : String) : Except DecodeError Dec :=
  (Dec.parseBytes text).mapError (.invalidNumber field)

def increment (text : Bytes) (field : String) : Except DecodeError Increment :=
  (Increment.parse text).mapError (.invalidNumber field)

section Loops

variable {α : Type}

/-- The loop over the members of an object, given how to read one. -/
def foldMembers (member : Bytes → α → Reader → Except DecodeError (α × Reader)) :
    Nat → α → Reader → Except DecodeError (α × Reader)
  | 0, _, _ => .error (.json .unexpectedEnd)
  | rounds + 1, fields, r => do
      let (key, r) ← fromJson r.nextKey
      match key with
      | none => .ok (fields, r)
      | some key => do
          let (fields, r) ← member key fields r
          foldMembers member rounds fields r

/-- An object, given how to read a member. -/
def foldObject (member : Bytes → α → Reader → Except DecodeError (α × Reader)) (fields : α)
    (r : Reader) : Except DecodeError (α × Reader) := do
  let r ← fromJson r.beginObject
  foldMembers member (r.rest.length + 1) fields r

/-- The loop over the elements of an array, given how to read one. -/
def foldElements (element : α → Reader → Except DecodeError (α × Reader)) :
    Nat → α → Reader → Except DecodeError (α × Reader)
  | 0, _, _ => .error (.json .unexpectedEnd)
  | rounds + 1, fields, r => do
      let (more, r) ← fromJson r.nextElement
      if !more then .ok (fields, r)
      else do
        let (fields, r) ← element fields r
        foldElements element rounds fields r

/-- An array, given how to read an element. -/
def foldArray (element : α → Reader → Except DecodeError (α × Reader)) (fields : α)
    (r : Reader) : Except DecodeError (α × Reader) := do
  let r ← fromJson r.beginArray
  foldElements element (r.rest.length + 1) fields r

end Loops

/-! ## Filters -/

/-- The values of the filters that were read. -/
structure FilterValues where
  tick : Option Increment
  lot : Option Increment
  minNotional : Option Dec
  deriving DecidableEq, Repr

/-- The texts of one filter. -/
structure FilterFields where
  kind : Option Bytes
  tickSize : Option Bytes
  stepSize : Option Bytes
  notional : Option Bytes
  deriving DecidableEq, Repr

/-- One member of a filter. -/
def readFilterMember (key : Bytes) (fields : FilterFields) (r : Reader) :
    Except DecodeError (FilterFields × Reader) :=
  if key = ascii "filterType" then do
    let (kind, r) ← fromJson r.str
    .ok ({ fields with kind := some kind }, r)
  else if key = ascii "tickSize" then do
    let (tickSize, r) ← fromJson r.str
    .ok ({ fields with tickSize := some tickSize }, r)
  else if key = ascii "stepSize" then do
    let (stepSize, r) ← fromJson r.str
    .ok ({ fields with stepSize := some stepSize }, r)
  else if key = ascii "minNotional" then do
    let (notional, r) ← fromJson r.str
    .ok ({ fields with notional := some notional }, r)
  else do
    let r ← fromJson r.skip
    .ok (fields, r)

/-- Assigns the values of a filter once its type is known. -/
def assignFilter (fields : FilterFields) (values : FilterValues) :
    Except DecodeError FilterValues :=
  match fields.kind with
  | none => .error (.missingField "filterType")
  | some kind =>
      if kind = ascii "PRICE_FILTER" then do
        let text ← orMissing fields.tickSize "tickSize"
        let tick ← increment text "tickSize"
        .ok { values with tick := some tick }
      else if kind = ascii "LOT_SIZE" then do
        let text ← orMissing fields.stepSize "stepSize"
        let lot ← increment text "stepSize"
        .ok { values with lot := some lot }
      else if kind = ascii "NOTIONAL" ∨ kind = ascii "MIN_NOTIONAL" then do
        let text ← orMissing fields.notional "minNotional"
        let minNotional ← number text "minNotional"
        .ok { values with minNotional := some minNotional }
      else .ok values

/-- Reads one filter object. Its `filterType` may come after the values. -/
def readFilter (values : FilterValues) (r : Reader) : Except DecodeError (FilterValues × Reader) := do
  let (fields, r) ← foldObject readFilterMember ⟨none, none, none, none⟩ r
  let values ← assignFilter fields values
  .ok (values, r)

/-! ## Symbols -/

/-- What was read of a symbol. -/
structure SymbolFields where
  symbol : Option Symbol
  status : Option Bool
  filters : FilterValues
  deriving DecidableEq, Repr

/-- One member of a symbol. -/
def readSymbolMember (key : Bytes) (fields : SymbolFields) (r : Reader) :
    Except DecodeError (SymbolFields × Reader) :=
  if key = ascii "symbol" then do
    let (text, r) ← fromJson r.str
    match Symbol.new text with
    | none => .error (.unexpectedValue "symbol")
    | some symbol => .ok ({ fields with symbol := some symbol }, r)
  else if key = ascii "status" then do
    let (text, r) ← fromJson r.str
    .ok ({ fields with status := some (decide (text = ascii "TRADING")) }, r)
  else if key = ascii "filters" then do
    let (filters, r) ← foldArray readFilter fields.filters r
    .ok ({ fields with filters }, r)
  else do
    let r ← fromJson r.skip
    .ok (fields, r)

/-- The rules of a symbol, of which none may be missing. -/
def finishSymbol (fields : SymbolFields) : Except DecodeError SymbolRules := do
  let symbol ← orMissing fields.symbol "symbol"
  let trading ← orMissing fields.status "status"
  let tick ← orMissing fields.filters.tick "tickSize"
  let lot ← orMissing fields.filters.lot "stepSize"
  let minNotional ← orMissing fields.filters.minNotional "minNotional"
  .ok ⟨symbol, trading, tick, lot, minNotional⟩

def readSymbol (r : Reader) : Except DecodeError (SymbolRules × Reader) := do
  let (fields, r) ← foldObject readSymbolMember ⟨none, none, ⟨none, none, none⟩⟩ r
  let rules ← finishSymbol fields
  .ok (rules, r)

/-! ## The message -/

/-- One member of the message. -/
def readInfoMember (key : Bytes) (rules : List SymbolRules) (r : Reader) :
    Except DecodeError (List SymbolRules × Reader) :=
  if key = ascii "symbols" then
    foldArray (fun rules r => do
      let (rule, r) ← readSymbol r
      .ok (rules ++ [rule], r)) rules r
  else do
    let r ← fromJson r.skip
    .ok (rules, r)

/-- Decodes an `exchangeInfo` response into rules for every symbol it lists. -/
def decodeExchangeInfo (message : Bytes) : Except DecodeError (List SymbolRules) := do
  let (rules, r) ← foldObject readInfoMember [] (Reader.new message)
  fromJson r.finish
  .ok rules

end Bowst.Venue
