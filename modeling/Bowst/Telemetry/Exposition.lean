/-
Bowst.Telemetry.Exposition — metrics in the Prometheus text format, version 0.0.4
(`bowst-telemetry/src/exposition.rs`).

A text is its characters; names are checked by their bytes, as the source checks them.
-/
import Bowst.Core.Units
import Bowst.Telemetry.Histogram

namespace Bowst.Telemetry

open Bowst.Core (saturatingAdd)

/-- The characters of a `str`. -/
abbrev Text := List Char

/-- Prometheus metric types used here. -/
inductive MetricType where
  | counter
  | gauge
  | summary
  deriving DecidableEq, Repr

def MetricType.asStr : MetricType → Text
  | .counter => "counter".toList
  | .gauge => "gauge".toList
  | .summary => "summary".toList

/-- A sample value: a count or level, or a duration in nanoseconds. -/
inductive Value where
  | int (v : Nat)
  | nanos (nanos : Nat)
  deriving DecidableEq, Repr

/-- One exposition text. -/
structure Exposition where
  out : Text
  rejected : Nat
  deriving DecidableEq, Repr

/-- `str::bytes`. -/
def utf8 (text : Text) : List UInt8 := text.flatMap String.utf8EncodeChar

def isAsciiAlphabetic (b : UInt8) : Bool := decide (65 ≤ b ∧ b ≤ 90 ∨ 97 ≤ b ∧ b ≤ 122)

def isAsciiAlphanumeric (b : UInt8) : Bool := isAsciiAlphabetic b || decide (48 ≤ b ∧ b ≤ 57)

/-- A name whose first byte passes one check, and every other byte a second. -/
def validName (start other : UInt8 → Bool) (name : Text) : Bool :=
  match utf8 name with
  | [] => false
  | b :: bytes => start b && bytes.all other

def validMetricName (name : Text) : Bool :=
  validName (fun b => isAsciiAlphabetic b || b == 95 || b == 58)
    (fun b => isAsciiAlphanumeric b || b == 95 || b == 58) name

def validLabelName (name : Text) : Bool :=
  validName (fun b => isAsciiAlphabetic b || b == 95) (fun b => isAsciiAlphanumeric b || b == 95) name &&
    !(['_', '_'].isPrefixOf name)

/-- `str::replace` of a character. -/
def replaceChar (text : Text) (old : Char) (new : Text) : Text :=
  text.flatMap fun c => if c = old then new else [c]

def escapeHelp (help : Text) : Text :=
  replaceChar (replaceChar help '\\' ['\\', '\\']) '\n' ['\\', 'n']

def pushEscapedLabelValue (out value : Text) : Text :=
  value.foldl
    (fun out c =>
      if c = '\\' then out ++ ['\\', '\\']
      else if c = '"' then out ++ ['\\', '"']
      else if c = '\n' then out ++ ['\\', 'n']
      else out ++ [c])
    out

def pushValue (out : Text) : Value → Text
  | .int v => out ++ Nat.toDigits 10 v
  | .nanos nanos =>
      out ++ Nat.toDigits 10 (nanos / 1000000000) ++ ['.'] ++
        (Nat.toDigits 10 (nanos % 1000000000)).leftpad 9 '0'

/-- The labels of a sample, the first of them at `index`. -/
def pushLabels (out : Text) : Nat → List (Text × Text) → Text
  | _, [] => out
  | index, (key, value) :: rest =>
      let out := if index > 0 then out ++ [','] else out
      let out := pushEscapedLabelValue (out ++ key ++ ['=', '"']) value ++ ['"']
      pushLabels out (index + 1) rest

namespace Exposition

/-- An empty exposition. -/
def new : Exposition := ⟨[], 0⟩

/-- Starts a metric family: its `# HELP` and `# TYPE` lines. -/
def family (e : Exposition) (name : Text) (kind : MetricType) (help : Text) : Exposition :=
  if !validMetricName name then { e with rejected := saturatingAdd e.rejected 1 }
  else
    let out := e.out ++ "# HELP ".toList ++ name ++ [' '] ++ escapeHelp help ++ ['\n']
    { e with out := out ++ "# TYPE ".toList ++ name ++ [' '] ++ kind.asStr ++ ['\n'] }

/-- Writes one sample. -/
def sample (e : Exposition) (name : Text) (labels : List (Text × Text)) (value : Value) :
    Exposition :=
  if !validMetricName name || !labels.all (fun label => validLabelName label.1) then
    { e with rejected := saturatingAdd e.rejected 1 }
  else
    let out := e.out ++ name
    let out := if labels.isEmpty then out else pushLabels (out ++ ['{']) 0 labels ++ ['}']
    { e with out := pushValue (out ++ [' ']) value ++ ['\n'] }

/-- Writes a summary's samples: quantiles from `window`, and `_sum` and `_count` from
`total`. -/
def summary (e : Exposition) (name : Text) (labels : List (Text × Text))
    (window total : LatencySummary) : Exposition :=
  let quantiles := [("0.5", window.p50), ("0.9", window.p90), ("0.99", window.p99),
    ("0.999", window.p999)]
  let e := quantiles.foldl
    (fun e (quantile, nanos) =>
      e.sample name (labels ++ [("quantile".toList, quantile.toList)]) (.nanos nanos))
    e
  let e := e.sample (name ++ "_sum".toList) labels (.nanos total.sum)
  e.sample (name ++ "_count".toList) labels (.int total.count)

/-- The finished text. -/
def finish (e : Exposition) : Text := e.out

end Exposition

end Bowst.Telemetry
