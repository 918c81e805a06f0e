/-
Bowst.Core.Instrument — venues, instruments and the instrument table
(`bowst-core/src/ids.rs`, `bowst-core/src/instrument.rs`) and wall-clock times
(`bowst-core/src/time.rs`).

Symbols are the bytes of their text.
-/
import Bowst.Core.Fixed
import Bowst.Lib.Bytes

namespace Bowst.Core

open Bowst.Lib

/-- A supported trading venue. -/
inductive VenueId where
  | binance
  | bybit
  deriving DecidableEq, Repr

/-- Stable numeric code, used as the source field of journal records. -/
def VenueId.code : VenueId → UInt16
  | .binance => 1
  | .bybit => 2

/-- Dense process-local index of an instrument. -/
structure InstrumentId where
  value : UInt32
  deriving DecidableEq, Repr

/-- `index_of`. -/
def InstrumentId.index (id : InstrumentId) : Nat := id.value.toNat

/-- `id_of`: an index that is no `u32` has the largest ID. -/
def InstrumentId.ofIndex (index : Nat) : InstrumentId :=
  ⟨if index < 2 ^ 32 then UInt32.ofNat index else 0xFFFFFFFF⟩

/-- Nanoseconds since the Unix epoch. -/
structure WallTime where
  nanos : UInt64
  deriving DecidableEq, Repr

/-- Converts a venue timestamp in Unix milliseconds. `none` on overflow. -/
def WallTime.fromUnixMillis (millis : Nat) : Option WallTime :=
  if millis * 1000000 < 2 ^ 64 then some ⟨UInt64.ofNat (millis * 1000000)⟩ else none

/-- Longest venue symbol a `Symbol` can hold. -/
def maxSymbolLen : Nat := 24

/-- `u8::is_ascii_graphic`. -/
def isAsciiGraphic (byte : UInt8) : Bool := decide (33 ≤ byte ∧ byte ≤ 126)

/-- What `Symbol::new` accepts. -/
def validSymbol (text : Bytes) : Bool :=
  !text.isEmpty && decide (text.length ≤ maxSymbolLen) && text.all isAsciiGraphic

/-- A venue's symbol for an instrument. -/
structure Symbol where
  text : Bytes
  valid : validSymbol text = true
  deriving DecidableEq, Repr

/-- Wraps `text`. -/
def Symbol.new (text : Bytes) : Option Symbol :=
  if h : validSymbol text = true then some ⟨text, h⟩ else none

/-- The symbol of Bitcoin in Tether. -/
def Symbol.btcUsdt : Symbol := ⟨ascii "BTCUSDT", by decide⟩

/-- One instrument on one venue, with the rules its orders must satisfy. -/
structure Instrument where
  id : InstrumentId
  venue : VenueId
  symbol : Symbol
  tick : Increment
  lot : Increment
  minNotional : Dec
  deriving DecidableEq, Repr

/-- Invalid instrument configuration. -/
inductive InstrumentTableError where
  | nonSequentialId (id : InstrumentId)
  | duplicateSymbol (venue : VenueId) (symbol : Symbol)
  deriving DecidableEq, Repr

/-- The check of one instrument, after the instruments `before` it. -/
def checkInstrument (before : List Instrument) (instrument : Instrument) :
    Except InstrumentTableError Unit :=
  if instrument.id.index ≠ before.length then .error (.nonSequentialId instrument.id)
  else if before.any fun other =>
      other.venue = instrument.venue && other.symbol = instrument.symbol then
    .error (.duplicateSymbol instrument.venue instrument.symbol)
  else .ok ()

/-- The loop of `InstrumentTable::new`. -/
def checkInstruments (before : List Instrument) : List Instrument → Except InstrumentTableError Unit
  | [] => .ok ()
  | instrument :: rest => do
      checkInstrument before instrument
      checkInstruments (before ++ [instrument]) rest

/-- All configured instruments: IDs are positions, and no venue symbol repeats. -/
structure InstrumentTable where
  instruments : List Instrument
  valid : checkInstruments [] instruments = .ok ()
  deriving DecidableEq, Repr

namespace InstrumentTable

/-- Builds a table. -/
def new (instruments : List Instrument) : Except InstrumentTableError InstrumentTable :=
  match h : checkInstruments [] instruments with
  | .ok () => .ok ⟨instruments, h⟩
  | .error err => .error err

/-- Instrument by ID. -/
def get (table : InstrumentTable) (id : InstrumentId) : Option Instrument :=
  table.instruments[id.index]?

/-- Instrument by venue symbol. -/
def find (table : InstrumentTable) (venue : VenueId) (symbol : Bytes) : Option Instrument :=
  table.instruments.find? fun i => i.venue = venue && i.symbol.text = symbol

/-- IDs are positions. -/
theorem index_of_check : ∀ (rest before : List Instrument), checkInstruments before rest = .ok () →
    ∀ {n : Nat} {instrument : Instrument}, rest[n]? = some instrument →
      instrument.id.index = before.length + n := by
  intro rest
  induction rest with
  | nil => intro before _ n instrument h; simp at h
  | cons first rest ih =>
      intro before hcheck n instrument h
      obtain ⟨_, hfirst, hrest⟩ := except_bind_eq_ok.mp hcheck
      cases n with
      | zero =>
          cases h
          unfold checkInstrument at hfirst
          split_ifs at hfirst with hid
          · exact not_not.mp hid
      | succ n =>
          have hlater := ih _ hrest h
          simp only [List.length_append, List.length_singleton] at hlater
          omega

/-- An instrument found by its symbol is the one its ID stands for. -/
theorem get_of_find {table : InstrumentTable} {venue : VenueId} {symbol : Bytes}
    {instrument : Instrument} (h : table.find venue symbol = some instrument) :
    table.get instrument.id = some instrument := by
  obtain ⟨n, hn⟩ := List.mem_iff_getElem?.mp (List.mem_of_find?_eq_some h)
  have hid := index_of_check _ _ table.valid hn
  rw [List.length_nil, Nat.zero_add] at hid
  rw [get, hid]
  exact hn

/-- The first instrument of a venue with a symbol is the only one. -/
theorem find?_of_check : ∀ (rest before : List Instrument), checkInstruments before rest = .ok () →
    ∀ {instrument : Instrument}, instrument ∈ rest →
      (∀ other ∈ before, ¬ (other.venue = instrument.venue ∧ other.symbol = instrument.symbol)) ∧
        (rest.find? fun i => i.venue = instrument.venue && i.symbol.text = instrument.symbol.text) =
          some instrument := by
  intro rest
  induction rest with
  | nil => intro before _ instrument hmem; simp at hmem
  | cons first rest ih =>
      intro before hcheck instrument hmem
      obtain ⟨_, hfirst, hrest⟩ := except_bind_eq_ok.mp hcheck
      rcases List.mem_cons.mp hmem with rfl | hmem
      · unfold checkInstrument at hfirst
        split_ifs at hfirst with hid hany
        exact ⟨by simpa using hany, by simp⟩
      · obtain ⟨hbefore, hfind⟩ := ih _ hrest hmem
        refine ⟨fun other hother => hbefore other (by simp [hother]), ?_⟩
        have hne : ¬ (first.venue = instrument.venue ∧ first.symbol.text = instrument.symbol.text) := by
          rintro ⟨hvenue, htext⟩
          refine hbefore first (by simp) ⟨hvenue, ?_⟩
          cases hsymbol : first.symbol
          cases hsymbol' : instrument.symbol
          simpa [hsymbol, hsymbol'] using htext
        rw [List.find?_cons_of_neg (by simpa using hne)]
        exact hfind

/-- Every instrument is found by its symbol. -/
theorem find_of_mem {table : InstrumentTable} {instrument : Instrument}
    (h : instrument ∈ table.instruments) :
    table.find instrument.venue instrument.symbol.text = some instrument :=
  (find?_of_check _ _ table.valid h).2

end InstrumentTable

end Bowst.Core
