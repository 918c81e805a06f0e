/-
Bowst.Venue.Rest — REST calls used by market data: depth snapshots and exchange info
(`bowst-venue/src/binance/rest.rs`).

What `http::get` returns is an argument.
-/
import Bowst.Venue.ExchangeInfo
import Bowst.Venue.Net

namespace Bowst.Venue

open Bowst.Lib Bowst.Core

/-- The documented request weight of a depth snapshot. -/
def depthWeight (limit : UInt32) : UInt64 :=
  if limit ≤ 100 then 5 else if limit ≤ 500 then 25 else if limit ≤ 1000 then 50 else 250

/-- Largest depth snapshot served. -/
def maxDepthLimit : UInt32 := 5000

/-- URL for a depth snapshot of `symbol` with `limit` levels per side. -/
def depthUrl (restBase : Bytes) (symbol : Symbol) (limit : UInt32) : Except NetError Url :=
  Url.parse (trimSlashes restBase ++ ascii "/api/v3/depth?symbol=" ++ symbol.text ++
    ascii "&limit=" ++ natText (min limit maxDepthLimit).toNat)

/-- A REST call that failed. -/
inductive RestError where
  | net (err : NetError)
  | status (status : Nat) (retryAfterSecs : Option Nat)
  | decode (err : DecodeError)
  | unknownSymbol (symbol : Symbol)
  | notTrading (symbol : Symbol)
  | invalidConfiguration
  deriving DecidableEq, Repr

/-- The `Display` text of a symbol. -/
def Symbol.display (symbol : Symbol) : String :=
  String.ofList (symbol.text.map fun b => Char.ofNat b.toNat)

def RestError.toText : RestError → String
  | .net err => err.toText
  | .status code _ => s!"HTTP status {code}"
  | .decode err => s!"decode: {err.toText}"
  | .unknownSymbol symbol => s!"symbol {Symbol.display symbol} is not listed"
  | .notTrading symbol => s!"symbol {Symbol.display symbol} is not trading"
  | .invalidConfiguration => "invalid instrument configuration"

/-- Fails unless the response status is 200. -/
def requireOk (response : Response) : Except RestError Response :=
  if response.status = 200 then .ok response
  else .error (.status response.status response.retryAfterSecs)

/-- URL of the trading rules for `symbols`. -/
def exchangeInfoUrl (restBase : Bytes) (symbols : List Symbol) : Except NetError Url :=
  let list := (symbols.map fun s => ascii "%22" ++ s.text ++ ascii "%22").intersperse (ascii ",")
  Url.parse (trimSlashes restBase ++ ascii "/api/v3/exchangeInfo?symbols=%5B" ++ list.flatten ++
    ascii "%5D")

/-- One turn of the loop of `load_instruments`. -/
def loadInstrument (rules : List SymbolRules) (index : Nat) (symbol : Symbol) :
    Except RestError Instrument :=
  match rules.find? fun r => r.symbol = symbol with
  | none => .error (.unknownSymbol symbol)
  | some rule =>
      if !rule.trading then .error (.notTrading symbol)
      else if index > 2 ^ 32 - 1 then .error .invalidConfiguration
      else .ok {
        id := InstrumentId.ofIndex index
        venue := .binance
        symbol := rule.symbol
        tick := rule.tick
        lot := rule.lot
        minNotional := rule.minNotional }

/-- The loop of `load_instruments`, from `index` on. -/
def loadLoop (rules : List SymbolRules) : Nat → List Symbol → Except RestError (List Instrument)
  | _, [] => .ok []
  | index, symbol :: symbols => do
      let instrument ← loadInstrument rules index symbol
      let instruments ← loadLoop rules (index + 1) symbols
      .ok (instrument :: instruments)

/-- Builds the instrument table from the trading rules for `symbols`, with IDs in the
order given. -/
def loadInstruments (restBase : Bytes) (symbols : List Symbol)
    (got : Url → Except NetError (Response × Bytes)) : Except RestError InstrumentTable := do
  let url ← (exchangeInfoUrl restBase symbols).mapError RestError.net
  let (response, body) ← (got url).mapError RestError.net
  let _ ← requireOk response
  let rules ← (decodeExchangeInfo body).mapError RestError.decode
  let instruments ← loadLoop rules 0 symbols
  (InstrumentTable.new instruments).mapError fun _ => RestError.invalidConfiguration

end Bowst.Venue
