/-
Bowst.Venue.ExchangeInfoTheorems — what trading rules decode to, in any layout
(`decode_exchange_info` of `bowst-venue/src/binance/exchange_info.rs`).

A response is its members in the order they come, with members that nobody asked for
among them and white space anywhere. What a reader makes of a text of some kind is said
once for each kind, and composed along the document. What the response comes to is said
without the reader: of what is said more than once the last counts, and the first that
fails is the error.

  §1 Loops    — arrays and objects, read along their items; the first that fails.
  §2 Contents — how a response may be written.
  §3 Rules    — what it says, and what is wrong with it.
  §4 Filters  — one filter is read as what it says last.
  §5 Symbols  — one symbol.
  §6 Response — the whole message.
-/
import Bowst.Venue.ExchangeInfo
import Bowst.Venue.LayoutTheorems

namespace Bowst.Venue

open Bowst.Lib Bowst.Core

/-! ## §1 Loops -/

section Loops

variable {σ α : Type} {depth : Nat} {Core : α → Bytes → Prop} {step : σ → α → Except DecodeError σ}

/-- A text of this kind is read whole, wherever it stands at this depth, and comes to what
`step` says. -/
def Takes (depth : Nat) (Core : α → Bytes → Prop)
    (read : σ → Reader → Except DecodeError (σ × Reader)) (step : σ → α → Except DecodeError σ) : Prop :=
  ∀ s a t r r', Core a t → ValueAt depth t r r' → read s r = (step s a).map fun s' => (s', r')

/-- A member is read whole, given its name. -/
def TakesMember (depth : Nat) (name : α → Bytes) (Value : α → Bytes → Prop)
    (member : Bytes → σ → Reader → Except DecodeError (σ × Reader))
    (step : σ → α → Except DecodeError σ) : Prop :=
  ∀ s a v r r', Value a v → ValueAt depth v r r' →
    member (name a) s r = (step s a).map fun s' => (s', r')

/-- Texts of this kind begin like no end of an array. -/
def OpensItem (Core : α → Bytes → Prop) : Prop :=
  ∀ a t, Core a t → ∃ b rest, t = b :: rest ∧ isWhitespace b = false ∧ b ≠ 93

def ArrayText (Core : α → Bytes → Prop) (as : List α) (t : Bytes) : Prop :=
  ∃ body, Listed (PaddedItem Core) as body ∧ t = 91 :: (body ++ [93])

/-- A member, given its name and how its value may be written. -/
def MemberOf (name : α → Bytes) (Value : α → Bytes → Prop) (a : α) (t : Bytes) : Prop :=
  ∃ v, Value a v ∧ Member Rfc8259.PlainName (fun _ => True) (name a, v) t

def ObjectOf (name : α → Bytes) (Value : α → Bytes → Prop) (as : List α) (t : Bytes) : Prop :=
  ∃ body, Listed (PaddedItem (MemberOf name Value)) as body ∧ t = 123 :: (body ++ [125])

theorem foldElements_complete {element : σ → Reader → Except DecodeError (σ × Reader)}
    (hread : Takes depth Core element step) (hopens : OpensItem Core) {r' : Reader}
    (hdepth : r'.depth = depth - 1) (hafter : r'.afterValue = true) :
    ∀ {rounds : Nat} {as : List α} {front : Bytes} {s : σ} {r : Reader},
      Tail Core 93 r.afterValue as front → r.Took front r' → r.depth = depth → r.rest.length < rounds →
      foldElements element rounds s r = (as.foldlM step s).map fun s' => (s', r') := by
  intro rounds
  induction rounds with
  | zero =>
      intro as front s r _ _ _ hrounds
      omega
  | succ rounds ih =>
      intro as front s r htail htook hr hrounds
      cases htail with
      | close hw =>
          have hclosed : r.nextElement = .ok (false, r') := (Reader.nextMember_closed rfl).mpr
            ⟨_, hw, htook, by rw [hr]; exact hdepth, hafter⟩
          rw [foldElements, fromJson_eq_ok.mpr hclosed]
          rfl
      | @more _ a as sep t front' hsep ht htail =>
          rw [← List.append_assoc] at htook
          obtain ⟨r₂, htook₂, hrest, hdepth₂, hafter₂⟩ := htook.split depth true
          obtain ⟨b, rest, rfl, hwhite, hclose⟩ := hopens a t ht
          obtain ⟨r₁, w, hmore, hw, htook₁, hdepth₁, -⟩ := Reader.nextElement_complete hsep
            (by simpa using ⟨hwhite, hclose⟩) (by simp) htook₂
          have hstop : ∀ b ∈ r₂.rest.head?, Reader.isNumberByte b = false := by
            rw [hrest.rest]
            exact Reader.tail_stops htail rfl r'.rest
          have helement := hread s a _ r₁ r₂ ht
            ⟨⟨w, hw, htook₁⟩, hdepth₁.trans hr, hdepth₂, hafter₂, hstop⟩
          have hlen := congrArg List.length htook₂.rest
          simp only [List.length_append, List.length_cons] at hlen
          rw [← hafter₂] at htail
          rw [foldElements, fromJson_eq_ok.mpr hmore]
          show (element s r₁ >>= _) = _
          rw [helement, List.foldlM_cons]
          cases step s a with
          | error err => rfl
          | ok s' => exact ih htail hrest hdepth₂ (by omega)

theorem foldArray_takes {element : σ → Reader → Except DecodeError (σ × Reader)}
    (hread : Takes (depth + 1) Core element step) (hopens : OpensItem Core) (hroom : depth < maxDepth) :
    Takes depth (ArrayText Core) (foldArray element) fun s as => as.foldlM step s := by
  rintro s as t r r' ⟨body, hbody, rfl⟩ hvalue
  obtain ⟨w, hw, htook⟩ := hvalue.took
  obtain ⟨r₁, front, hopen, htail, htook₁, hdepth₁, -⟩ :=
    Reader.enter_complete "'['" rfl hbody hw (by rw [hvalue.before]; exact hroom) htook
  rw [foldArray, Reader.beginArray, fromJson_eq_ok.mpr hopen]
  exact foldElements_complete hread hopens (by rw [hvalue.after]; omega) hvalue.afterValue htail htook₁
    (by rw [hdepth₁, hvalue.before]) (Nat.lt_succ_self _)

variable {name : α → Bytes} {Value : α → Bytes → Prop}
  {member : Bytes → σ → Reader → Except DecodeError (σ × Reader)}

theorem foldMembers_complete (hread : TakesMember depth name Value member step) {r' : Reader}
    (hdepth : r'.depth = depth - 1) (hafter : r'.afterValue = true) :
    ∀ {rounds : Nat} {as : List α} {front : Bytes} {s : σ} {r : Reader},
      Tail (MemberOf name Value) 125 r.afterValue as front → r.Took front r' → r.depth = depth →
      r.rest.length < rounds →
      foldMembers member rounds s r = (as.foldlM step s).map fun s' => (s', r') := by
  intro rounds
  induction rounds with
  | zero =>
      intro as front s r _ _ _ hrounds
      omega
  | succ rounds ih =>
      intro as front s r htail htook hr hrounds
      cases htail with
      | close hw =>
          have hclosed := Reader.nextKey_none.mpr ⟨_, hw, htook, by rw [hr]; exact hdepth, hafter⟩
          rw [foldMembers, fromJson_eq_ok.mpr hclosed]
          rfl
      | @more _ a as sep t front' hsep ht htail =>
          obtain ⟨v, hv, hname, -, w, w', hw, hw', rfl⟩ := ht
          have hpieces : sep ++ (34 :: (name a ++ 34 :: (w ++ 58 :: (w' ++ v))) ++ front') =
              (sep ++ 34 :: (name a ++ 34 :: (w ++ [58]))) ++ ((w' ++ v) ++ front') := by simp
          rw [hpieces] at htook
          obtain ⟨m, hm, htook₁, hmdepth, hmafter⟩ := htook.split depth false
          obtain ⟨r₁, hr₁, hrest, hdepth₁, hafter₁⟩ := htook₁.split depth true
          have hkey := Reader.nextKey_some.mpr ⟨hname, sep, w, hsep, hw, hm, hmdepth.trans hr.symm, hmafter⟩
          have hstop : ∀ b ∈ r₁.rest.head?, Reader.isNumberByte b = false := by
            rw [hrest.rest]
            exact Reader.tail_stops htail rfl r'.rest
          have hmember := hread s a v m r₁ hv ⟨⟨w', hw', hr₁⟩, hmdepth, hdepth₁, hafter₁, hstop⟩
          have hlen := congrArg List.length (hm.trans hr₁).rest
          simp only [List.length_append, List.length_cons] at hlen
          rw [← hafter₁] at htail
          rw [foldMembers, fromJson_eq_ok.mpr hkey]
          show (member (name a) s m >>= _) = _
          rw [hmember, List.foldlM_cons]
          cases step s a with
          | error err => rfl
          | ok s' => exact ih htail hrest hdepth₁ (by omega)

theorem foldObject_takes (hread : TakesMember (depth + 1) name Value member step)
    (hroom : depth < maxDepth) :
    Takes depth (ObjectOf name Value) (foldObject member) fun s as => as.foldlM step s := by
  rintro s as t r r' ⟨body, hbody, rfl⟩ hvalue
  obtain ⟨w, hw, htook⟩ := hvalue.took
  obtain ⟨r₁, front, hopen, htail, htook₁, hdepth₁, -⟩ :=
    Reader.enter_complete "'\x7b'" rfl hbody hw (by rw [hvalue.before]; exact hroom) htook
  rw [foldObject, Reader.beginObject, fromJson_eq_ok.mpr hopen]
  exact foldMembers_complete hread (by rw [hvalue.after]; omega) hvalue.afterValue htail htook₁
    (by rw [hdepth₁, hvalue.before]) (Nat.lt_succ_self _)

end Loops

section First

variable {σ α β ε : Type} {Fails : α → ε → Prop} {step : σ → α → Except ε σ} {f : α → Option β}

/-- The error of the first of these that has one. -/
def FirstError (Fails : α → ε → Prop) (as : List α) (err : ε) : Prop :=
  ∃ before a after, as = before ++ a :: after ∧ (∀ b ∈ before, ∀ err, ¬ Fails b err) ∧ Fails a err

theorem firstError_nil {err : ε} : ¬ FirstError Fails [] err := by
  rintro ⟨before, a, after, h, -⟩
  cases before <;> cases h

theorem firstError_cons {a : α} {as : List α} {err : ε} : FirstError Fails (a :: as) err ↔
    Fails a err ∨ (∀ err, ¬ Fails a err) ∧ FirstError Fails as err := by
  constructor
  · rintro ⟨before, a', after, h, hbefore, hfails⟩
    cases before with
    | nil =>
        cases h
        exact .inl hfails
    | cons b before =>
        cases h
        exact .inr ⟨hbefore _ (List.mem_cons_self ..),
          before, a', after, rfl, fun b hb => hbefore b (List.mem_cons_of_mem _ hb), hfails⟩
  · rintro (hfails | ⟨hfine, before, a', after, rfl, hbefore, hfails⟩)
    · exact ⟨[], a, as, rfl, nofun, hfails⟩
    · exact ⟨a :: before, a', after, rfl, List.forall_mem_cons.mpr ⟨hfine, hbefore⟩, hfails⟩

theorem no_firstError {as : List α} :
    (∀ err, ¬ FirstError Fails as err) ↔ ∀ a ∈ as, ∀ err, ¬ Fails a err := by
  induction as with
  | nil => exact ⟨fun _ => nofun, fun _ _ => firstError_nil⟩
  | cons a as ih =>
      simp only [firstError_cons, List.forall_mem_cons, ← ih]
      constructor
      · intro h
        have hfine : ∀ err, ¬ Fails a err := fun err hfails => h err (.inl hfails)
        exact ⟨hfine, fun err hfirst => h err (.inr ⟨hfine, hfirst⟩)⟩
      · rintro ⟨hfine, hrest⟩ err (hfails | ⟨-, hfirst⟩)
        · exact hfine err hfails
        · exact hrest err hfirst

/-- Steps fail with the error of the first item that has one. -/
theorem foldlM_error (hstep : ∀ s a err, step s a = .error err ↔ Fails a err) (as : List α) :
    ∀ s err, as.foldlM step s = .error err ↔ FirstError Fails as err := by
  induction as with
  | nil => exact fun s err => ⟨nofun, fun h => absurd h firstError_nil⟩
  | cons a as ih =>
      intro s err
      rw [List.foldlM_cons, firstError_cons, ← hstep s a err]
      cases ha : step s a with
      | error err' =>
          have hfails := (hstep s a err').mp ha
          exact ⟨.inl, fun h => h.elim id fun h => absurd hfails (h.1 err')⟩
      | ok s' =>
          have hfine : ∀ err, ¬ Fails a err := by
            intro err hfails
            rw [(hstep s a err).mpr hfails] at ha
            cases ha
          exact (ih s' err).trans ⟨fun h => .inr ⟨hfine, h⟩, fun h => h.elim nofun And.right⟩

/-- Steps that come through met nothing that fails. -/
theorem fine_of_foldlM (hstep : ∀ s a err, step s a = .error err ↔ Fails a err) {as : List α} {s s' : σ}
    (h : as.foldlM step s = .ok s') : ∀ a ∈ as, ∀ err, ¬ Fails a err := by
  refine no_firstError.mp fun err hfirst => ?_
  rw [(foldlM_error hstep as s err).mpr hfirst] at h
  cases h

/-- What is said last. -/
def lastOf (f : α → Option β) (as : List α) : Option β := (as.filterMap f).getLast?

theorem lastOf_snoc (as : List α) (a : α) : lastOf f (as ++ [a]) = (f a).or (lastOf f as) := by
  rw [lastOf, List.filterMap_append]
  cases h : f a <;> simp [lastOf, h]

end First

/-! ## §2 Contents -/

/-- A value that `skip` accepts in an object at this depth. -/
def Skipped (depth : Nat) (value : Bytes) : Prop :=
  ∃ r, (⟨value, 0, depth, false⟩ : Reader).skip = .ok r ∧ r.rest = []

theorem Skipped.skip {depth : Nat} {value : Bytes} (h : Skipped depth value) (hdepth : depth ≤ maxDepth)
    {r r' : Reader} (hvalue : ValueAt depth value r r') : r.skip = .ok r' := by
  have hname : ([] : Bytes) ∉ ascii "data" :: updateNames := by simp [ascii, updateNames]
  have hextra : Extra depth ([], value) := ⟨hname, h⟩
  exact hextra.skip hdepth hvalue

/-- A string that needs no escapes. -/
def TextOf (text t : Bytes) : Prop := Rfc8259.PlainName text ∧ t = quote text

theorem TextOf.str {depth : Nat} {text t : Bytes} (h : TextOf text t) {r r' : Reader}
    (hvalue : ValueAt depth t r r') : r.str = .ok (text, r') := by
  obtain ⟨hplain, rfl⟩ := h
  obtain ⟨w, hw, htook⟩ := hvalue.took
  exact Reader.str_eq_ok.mpr
    ⟨hplain, w, hw, htook, hvalue.after.trans hvalue.before.symm, hvalue.afterValue⟩

/-- A member of a filter. -/
inductive FilterMember where
  | kind (text : Bytes)
  | tickSize (text : Bytes)
  | stepSize (text : Bytes)
  | notional (text : Bytes)
  | other (name value : Bytes)

namespace FilterMember

def name : FilterMember → Bytes
  | kind _ => ascii "filterType"
  | tickSize _ => ascii "tickSize"
  | stepSize _ => ascii "stepSize"
  | notional _ => ascii "minNotional"
  | other name _ => name

def names : List Bytes := ["filterType", "tickSize", "stepSize", "minNotional"].map ascii

/-- How the value of a member may be written. -/
def Value (depth : Nat) : FilterMember → Bytes → Prop
  | kind text, t | tickSize text, t | stepSize text, t | notional text, t => TextOf text t
  | other name value, t => name ∉ names ∧ Skipped depth value ∧ t = value

def set (fields : FilterFields) : FilterMember → FilterFields
  | kind text => { fields with kind := some text }
  | tickSize text => { fields with tickSize := some text }
  | stepSize text => { fields with stepSize := some text }
  | notional text => { fields with notional := some text }
  | other _ _ => fields

def kind? : FilterMember → Option Bytes
  | kind text => some text
  | _ => none

def tickSize? : FilterMember → Option Bytes
  | tickSize text => some text
  | _ => none

def stepSize? : FilterMember → Option Bytes
  | stepSize text => some text
  | _ => none

def notional? : FilterMember → Option Bytes
  | notional text => some text
  | _ => none

end FilterMember

/-- A filter with these members. -/
def FilterText (depth : Nat) (ms : List FilterMember) (t : Bytes) : Prop :=
  ObjectOf FilterMember.name (FilterMember.Value (depth + 1)) ms t

/-- A member of a symbol. Its name and its status may be any texts. -/
inductive SymbolMember where
  | symbol (text : Bytes)
  | status (text : Bytes)
  | filters (filters : List (List FilterMember))
  | other (name value : Bytes)

namespace SymbolMember

def name : SymbolMember → Bytes
  | symbol _ => ascii "symbol"
  | status _ => ascii "status"
  | filters _ => ascii "filters"
  | other name _ => name

def names : List Bytes := ["symbol", "status", "filters"].map ascii

def Value (depth : Nat) : SymbolMember → Bytes → Prop
  | symbol text, t | status text, t => TextOf text t
  | filters fs, t => ArrayText (FilterText (depth + 1)) fs t
  | other name value, t => name ∉ names ∧ Skipped depth value ∧ t = value

def symbol? : SymbolMember → Option Bytes
  | symbol text => some text
  | _ => none

def status? : SymbolMember → Option Bytes
  | status text => some text
  | _ => none

def filters? : SymbolMember → Option (List (List FilterMember))
  | filters fs => some fs
  | _ => none

end SymbolMember

/-- A symbol with these members. -/
def SymbolText (depth : Nat) (ms : List SymbolMember) (t : Bytes) : Prop :=
  ObjectOf SymbolMember.name (SymbolMember.Value (depth + 1)) ms t

/-- A member of a response. -/
inductive InfoMember where
  | symbols (symbols : List (List SymbolMember))
  | other (name value : Bytes)

namespace InfoMember

def name : InfoMember → Bytes
  | symbols _ => ascii "symbols"
  | other name _ => name

def Value (depth : Nat) : InfoMember → Bytes → Prop
  | symbols cs, t => ArrayText (SymbolText (depth + 1)) cs t
  | other name value, t => name ≠ ascii "symbols" ∧ Skipped depth value ∧ t = value

def symbols? : InfoMember → Option (List (List SymbolMember))
  | symbols cs => some cs
  | other _ _ => none

end InfoMember

/-- A response with these members. -/
def InfoText (ms : List InfoMember) (t : Bytes) : Prop :=
  ObjectOf InfoMember.name (InfoMember.Value 1) ms t

/-! ## §3 Rules -/

/-- What a filter says: of each of its members the last. -/
def FilterFields.saidBy (ms : List FilterMember) : FilterFields where
  kind := lastOf FilterMember.kind? ms
  tickSize := lastOf FilterMember.tickSize? ms
  stepSize := lastOf FilterMember.stepSize? ms
  notional := lastOf FilterMember.notional? ms

def priceFilter : List Bytes := [ascii "PRICE_FILTER"]

def lotSize : List Bytes := [ascii "LOT_SIZE"]

def notionals : List Bytes := [ascii "NOTIONAL", ascii "MIN_NOTIONAL"]

/-- Whether the filter is of one of these types. -/
def FilterFields.isKind (kinds : List Bytes) (c : FilterFields) : Bool := c.kind.any fun kind => kind ∈ kinds

/-- What is wrong with a value that must be there: it is not, or it is none. -/
inductive Misses {β : Type} (text? : Option Bytes) (field : String)
    (parse : Bytes → Except FixedError β) : DecodeError → Prop
  | absent (hvalue : text? = none) : Misses text? field parse (.missingField field)
  | invalid {text : Bytes} {err : FixedError} (hvalue : text? = some text)
      (hbad : parse text = .error err) : Misses text? field parse (.invalidNumber field err)

/-- What is wrong with a filter: its type is not there, or the value that its type asks for
is wrong. -/
inductive FilterFields.Fails (c : FilterFields) : DecodeError → Prop
  | untyped (hkind : c.kind = none) : Fails c (.missingField "filterType")
  | tick {err : DecodeError} (hkind : c.isKind priceFilter)
      (hmisses : Misses c.tickSize "tickSize" Increment.parse err) : Fails c err
  | lot {err : DecodeError} (hkind : c.isKind lotSize)
      (hmisses : Misses c.stepSize "stepSize" Increment.parse err) : Fails c err
  | minNotional {err : DecodeError} (hkind : c.isKind notionals)
      (hmisses : Misses c.notional "minNotional" Dec.parseBytes err) : Fails c err

/-- The last filter of one of these types. -/
def lastFilter (kinds : List Bytes) (filters : List FilterFields) : Option FilterFields :=
  filters.reverse.find? (FilterFields.isKind kinds)

/-- What the filters of a symbol say, in their order. -/
def filtersIn (ms : List SymbolMember) : List FilterFields :=
  (ms.filterMap SymbolMember.filters?).flatten.map .saidBy

/-- What is wrong with a member of a symbol: it names no symbol, or a filter fails. -/
inductive SymbolMember.Fails : SymbolMember → DecodeError → Prop
  | symbol {text : Bytes} (hbad : ∀ s : Symbol, s.text ≠ text) :
      Fails (.symbol text) (.unexpectedValue "symbol")
  | filters {fs : List (List FilterMember)} {err : DecodeError}
      (hfirst : FirstError FilterFields.Fails (fs.map .saidBy) err) : Fails (.filters fs) err

/-- What the rules of a symbol are made of, and whether it is there. -/
def parts (ms : List SymbolMember) : List (String × Bool) :=
  [("symbol", (lastOf SymbolMember.symbol? ms).isSome),
    ("status", (lastOf SymbolMember.status? ms).isSome),
    ("tickSize", (lastFilter priceFilter (filtersIn ms)).isSome),
    ("stepSize", (lastFilter lotSize (filtersIn ms)).isSome),
    ("minNotional", (lastFilter notionals (filtersIn ms)).isSome)]

/-- A part that is not there. -/
def Lacks (part : String × Bool) (err : DecodeError) : Prop :=
  part.2 = false ∧ err = .missingField part.1

/-- What is wrong with a symbol: a member fails, or else a part is missing; of several the
first. -/
inductive SymbolFails (ms : List SymbolMember) : DecodeError → Prop
  | member {err : DecodeError} (hfirst : FirstError SymbolMember.Fails ms err) : SymbolFails ms err
  | part {err : DecodeError} (hfine : ∀ m ∈ ms, ∀ err, ¬ m.Fails err)
      (hfirst : FirstError Lacks (parts ms) err) : SymbolFails ms err

/-- What the rules of a symbol are: no member fails, and they are what was said last, the
values those of the last filter of each type. -/
structure HasRules (ms : List SymbolMember) (rule : SymbolRules) : Prop where
  fine : ∀ m ∈ ms, ∀ err, ¬ m.Fails err
  symbol : lastOf SymbolMember.symbol? ms = some rule.symbol.text
  trading : ∃ status, lastOf SymbolMember.status? ms = some status ∧
    rule.trading = decide (status = ascii "TRADING")
  tick : ∃ f text, lastFilter priceFilter (filtersIn ms) = some f ∧ f.tickSize = some text ∧
    Increment.parse text = .ok rule.tick
  lot : ∃ f text, lastFilter lotSize (filtersIn ms) = some f ∧ f.stepSize = some text ∧
    Increment.parse text = .ok rule.lot
  minNotional : ∃ f text, lastFilter notionals (filtersIn ms) = some f ∧ f.notional = some text ∧
    Dec.parseBytes text = .ok rule.minNotional

/-- The symbols of a response, in their order. -/
def symbolsIn (ms : List InfoMember) : List (List SymbolMember) :=
  (ms.filterMap InfoMember.symbols?).flatten

/-! ## §4 Filters -/

theorem readFilterMember_takes {depth : Nat} (hdepth : depth ≤ maxDepth) :
    TakesMember depth FilterMember.name (FilterMember.Value depth) readFilterMember
      fun fields m => .ok (m.set fields) := by
  intro fields m v r r' hv hvalue
  cases m with
  | kind text =>
      rw [FilterMember.name, readFilterMember, if_pos rfl, fromJson_eq_ok.mpr (TextOf.str hv hvalue)]
      rfl
  | tickSize text =>
      rw [FilterMember.name, readFilterMember, if_neg (by simp [ascii]), if_pos rfl,
        fromJson_eq_ok.mpr (TextOf.str hv hvalue)]
      rfl
  | stepSize text =>
      rw [FilterMember.name, readFilterMember, if_neg (by simp [ascii]), if_neg (by simp [ascii]),
        if_pos rfl, fromJson_eq_ok.mpr (TextOf.str hv hvalue)]
      rfl
  | notional text =>
      rw [FilterMember.name, readFilterMember, if_neg (by simp [ascii]), if_neg (by simp [ascii]),
        if_neg (by simp [ascii]), if_pos rfl, fromJson_eq_ok.mpr (TextOf.str hv hvalue)]
      rfl
  | other name value =>
      obtain ⟨hname, hskipped, rfl⟩ := hv
      simp only [FilterMember.names, List.map_cons, List.map_nil, List.mem_cons, List.not_mem_nil, or_false,
        not_or] at hname
      obtain ⟨hkind, htick, hstep, hnotional⟩ := hname
      rw [FilterMember.name, readFilterMember, if_neg hkind, if_neg htick, if_neg hstep, if_neg hnotional,
        fromJson_eq_ok.mpr (hskipped.skip hdepth hvalue)]
      rfl

/-- A filter is read as what it says last. -/
theorem filterMembers_said (ms : List FilterMember) :
    ms.foldlM (fun fields (m : FilterMember) => (.ok (m.set fields) : Except DecodeError FilterFields))
      ⟨none, none, none, none⟩ = .ok (.saidBy ms) := by
  induction ms using List.reverseRecOn with
  | nil => rfl
  | append_singleton ms m ih =>
      rw [List.foldlM_append, ih]
      show Except.ok (m.set (.saidBy ms)) = _
      simp only [FilterFields.saidBy, lastOf_snoc]
      cases m <;> rfl

theorem readFilter_takes {depth : Nat} (hroom : depth < maxDepth) :
    Takes depth (FilterText depth) readFilter fun values ms => assignFilter (.saidBy ms) values := by
  intro values ms t r r' hobject hvalue
  have hread := foldObject_takes (@readFilterMember_takes (depth + 1) hroom) hroom
    ⟨none, none, none, none⟩ ms t r r' hobject hvalue
  dsimp only at hread
  rw [filterMembers_said] at hread
  rw [readFilter, hread]
  show (assignFilter (.saidBy ms) values >>= fun values => _) = (assignFilter (.saidBy ms) values).map _
  cases assignFilter (.saidBy ms) values <;> rfl

theorem opens_objectOf {α : Type} {name : α → Bytes} {Value : α → Bytes → Prop} {as : List α} {t : Bytes}
    (h : ObjectOf name Value as t) : ∃ b rest, t = b :: rest ∧ isWhitespace b = false ∧ b ≠ 93 := by
  obtain ⟨body, -, rfl⟩ := h
  exact ⟨_, _, rfl, by decide, by decide⟩

theorem filterText_opens (depth : Nat) : OpensItem (FilterText depth) := by
  exact fun ms t hobject => opens_objectOf hobject

/-! ## §5 Symbols -/

section Values

variable {β : Type} {text? : Option Bytes} {field : String} {parse : Bytes → Except FixedError β}

/-- A value that a filter must have. -/
def valueOf (text? : Option Bytes) (field : String) (parse : Bytes → Except FixedError β) :
    Except DecodeError β := do
  let text ← orMissing text? field
  (parse text).mapError (.invalidNumber field)

theorem valueOf_ok {b : β} :
    valueOf text? field parse = .ok b ↔ ∃ text, text? = some text ∧ parse text = .ok b := by
  cases text? with
  | none => simp [valueOf, orMissing, bind, Except.bind]
  | some text =>
      cases hparse : parse text <;> simp [valueOf, orMissing, bind, Except.bind, Except.mapError, hparse]

theorem valueOf_error {err : DecodeError} :
    valueOf text? field parse = .error err ↔ Misses text? field parse err := by
  constructor
  · intro h
    cases htext : text? with
    | none =>
        rw [valueOf, htext] at h
        cases h
        exact .absent rfl
    | some text =>
        rw [valueOf, htext] at h
        cases hparse : parse text with
        | error e =>
            simp only [orMissing, bind, Except.bind, Except.mapError, hparse, Except.error.injEq] at h
            exact h ▸ .invalid rfl hparse
        | ok b => simp [orMissing, bind, Except.bind, Except.mapError, hparse] at h
  · intro h
    cases h with
    | absent hvalue => rw [valueOf, hvalue]; rfl
    | invalid hvalue hbad =>
        rw [valueOf, hvalue]
        simp [orMissing, bind, Except.bind, Except.mapError, hbad]

theorem valueOf_map {γ : Type} (f : β → γ) :
    (orMissing text? field >>= fun text =>
      (parse text).mapError (.invalidNumber field) >>= fun b => .ok (f b)) =
        (valueOf text? field parse).map f := by
  cases text? with
  | none => rfl
  | some text =>
      cases hparse : parse text <;>
        simp [valueOf, orMissing, bind, Except.bind, Except.map, Except.mapError, hparse]

end Values

/-- Which of the three types a filter has. -/
structure FilterFields.OneOf (c : FilterFields) (price lot notional : Bool) : Prop where
  price : c.isKind priceFilter = price
  lot : c.isKind lotSize = lot
  notional : c.isKind notionals = notional

/-- A filter sets the value of its type, and no other. -/
theorem assignFilter_cases (c : FilterFields) (values : FilterValues) :
    (c.kind = none ∧ assignFilter c values = .error (.missingField "filterType")) ∨
    (c.OneOf true false false ∧ assignFilter c values =
      (valueOf c.tickSize "tickSize" Increment.parse).map fun tick => { values with tick := some tick }) ∨
    (c.OneOf false true false ∧ assignFilter c values =
      (valueOf c.stepSize "stepSize" Increment.parse).map fun lot => { values with lot := some lot }) ∨
    (c.OneOf false false true ∧ assignFilter c values =
      (valueOf c.notional "minNotional" Dec.parseBytes).map fun minNotional =>
        { values with minNotional := some minNotional }) ∨
    (c.kind ≠ none ∧ c.OneOf false false false ∧ assignFilter c values = .ok values) := by
  cases hkind : c.kind with
  | none => exact .inl ⟨rfl, by rw [assignFilter, hkind]⟩
  | some kind =>
      right
      have hone : c.OneOf (decide (kind ∈ priceFilter)) (decide (kind ∈ lotSize))
          (decide (kind ∈ notionals)) := by
        constructor <;> rw [FilterFields.isKind, hkind] <;> rfl
      simp only [assignFilter, hkind]
      split_ifs with hprice hlot hnotional
      · subst hprice
        exact .inl ⟨hone, valueOf_map _⟩
      · subst hlot
        exact .inr (.inl ⟨hone, valueOf_map _⟩)
      · refine .inr (.inr (.inl ⟨?_, valueOf_map _⟩))
        rcases hnotional with rfl | rfl <;> exact hone
      · refine .inr (.inr (.inr ⟨by simp, ?_, rfl⟩))
        simpa [priceFilter, lotSize, notionals, hprice, hlot, hnotional] using hone

/-- Which of the ways to fail are open to a filter of a type. -/
theorem FilterFields.Fails.cases_of {c : FilterFields} {price lot notional : Bool} {err : DecodeError}
    (h : c.Fails err) (hone : c.OneOf price lot notional) :
    (c.kind = none ∧ price = false ∧ lot = false ∧ notional = false) ∨
    (price = true ∧ Misses c.tickSize "tickSize" Increment.parse err) ∨
    (lot = true ∧ Misses c.stepSize "stepSize" Increment.parse err) ∨
    (notional = true ∧ Misses c.notional "minNotional" Dec.parseBytes err) := by
  cases h with
  | untyped hkind =>
      have hnot : ∀ kinds, c.isKind kinds = false := fun kinds => by rw [isKind, hkind]; rfl
      exact .inl ⟨hkind, hone.price.symm.trans (hnot _), hone.lot.symm.trans (hnot _),
        hone.notional.symm.trans (hnot _)⟩
  | tick hkind hmisses => exact .inr (.inl ⟨hone.price.symm.trans hkind, hmisses⟩)
  | lot hkind hmisses => exact .inr (.inr (.inl ⟨hone.lot.symm.trans hkind, hmisses⟩))
  | minNotional hkind hmisses => exact .inr (.inr (.inr ⟨hone.notional.symm.trans hkind, hmisses⟩))

/-- It fails exactly with what is wrong with it. -/
theorem assignFilter_error (values : FilterValues) (c : FilterFields) (err : DecodeError) :
    assignFilter c values = .error err ↔ c.Fails err := by
  rcases assignFilter_cases c values with ⟨hkind, heq⟩ | ⟨hone, heq⟩ | ⟨hone, heq⟩ | ⟨hone, heq⟩ |
    ⟨hkind, hone, heq⟩
  · rw [heq]
    refine ⟨fun h => by cases h; exact .untyped hkind, fun h => ?_⟩
    cases h with
    | untyped => rfl
    | tick hkind' | lot hkind' | minNotional hkind' =>
        rw [FilterFields.isKind, hkind] at hkind'
        cases hkind'
  · rw [heq, except_map_eq_error, valueOf_error]
    refine ⟨.tick hone.price, fun h => ?_⟩
    simpa using h.cases_of hone
  · rw [heq, except_map_eq_error, valueOf_error]
    refine ⟨.lot hone.lot, fun h => ?_⟩
    simpa using h.cases_of hone
  · rw [heq, except_map_eq_error, valueOf_error]
    refine ⟨.minNotional hone.notional, fun h => ?_⟩
    simpa using h.cases_of hone
  · rw [heq]
    refine ⟨nofun, fun h => ?_⟩
    simpa [hkind] using h.cases_of hone

/-- A filter sets the value of its type, and leaves those of the others alone. -/
theorem assignFilter_slots {c : FilterFields} {values values' : FilterValues}
    (h : assignFilter c values = .ok values') :
    (values'.tick = if c.isKind priceFilter then
      (valueOf c.tickSize "tickSize" Increment.parse).toOption else values.tick) ∧
    (values'.lot = if c.isKind lotSize then
      (valueOf c.stepSize "stepSize" Increment.parse).toOption else values.lot) ∧
    values'.minNotional = if c.isKind notionals then
      (valueOf c.notional "minNotional" Dec.parseBytes).toOption else values.minNotional := by
  rcases assignFilter_cases c values with ⟨-, heq⟩ | ⟨hone, heq⟩ | ⟨hone, heq⟩ | ⟨hone, heq⟩ |
    ⟨-, hone, heq⟩
  all_goals rw [heq] at h
  · cases h
  · obtain ⟨tick, hvalue, rfl⟩ := except_map_eq_ok.mp h
    simp [hone.price, hone.lot, hone.notional, hvalue, Except.toOption]
  · obtain ⟨lot, hvalue, rfl⟩ := except_map_eq_ok.mp h
    simp [hone.price, hone.lot, hone.notional, hvalue, Except.toOption]
  · obtain ⟨minNotional, hvalue, rfl⟩ := except_map_eq_ok.mp h
    simp [hone.price, hone.lot, hone.notional, hvalue, Except.toOption]
  · cases h
    simp [hone.price, hone.lot, hone.notional]

/-- The values of filters, the later ones over the earlier ones. -/
def assignFilters (values : FilterValues) (filters : List FilterFields) : Except DecodeError FilterValues :=
  filters.foldlM (fun values c => assignFilter c values) values

theorem assignFilters_append (values : FilterValues) (filters filters' : List FilterFields) :
    assignFilters values (filters ++ filters') =
      assignFilters values filters >>= fun values => assignFilters values filters' :=
  List.foldlM_append

theorem assignFilters_error (values : FilterValues) (filters : List FilterFields) (err : DecodeError) :
    assignFilters values filters = .error err ↔ FirstError FilterFields.Fails filters err :=
  foldlM_error assignFilter_error filters values err

/-- A value that a filter sets or keeps is that of the last filter that sets it. -/
theorem assignFilters_slot {β : Type} {slot : FilterValues → Option β} {kinds : List Bytes}
    {value : FilterFields → Except DecodeError β}
    (hstep : ∀ {c values values'}, assignFilter c values = .ok values' →
      slot values' = if c.isKind kinds then (value c).toOption else slot values) :
    ∀ {filters : List FilterFields} {values values' : FilterValues},
      assignFilters values filters = .ok values' →
      slot values' = ((lastFilter kinds filters).map fun f => (value f).toOption).getD (slot values) := by
  intro filters
  induction filters with
  | nil =>
      intro values values' h
      cases h
      rfl
  | cons c filters ih =>
      intro values values' h
      rw [assignFilters, List.foldlM_cons] at h
      obtain ⟨values₁, hfirst, hrest⟩ := except_bind_eq_ok.mp h
      rw [ih hrest, hstep hfirst, lastFilter, lastFilter, List.reverse_cons, List.find?_append]
      cases filters.reverse.find? (FilterFields.isKind kinds) with
      | some f => rfl
      | none => cases hkind : c.isKind kinds <;> simp [hkind]

/-- Filters none of which fails leave a value exactly if there is one of its types, and
then that of the last. -/
structure SlotSays {β : Type} (last : Option FilterFields) (text : FilterFields → Option Bytes)
    (parse : Bytes → Except FixedError β) (slot : Option β) : Prop where
  isSome : slot.isSome = last.isSome
  value : ∀ b, slot = some b ↔ ∃ f t, last = some f ∧ text f = some t ∧ parse t = .ok b

theorem SlotSays.of_last {β : Type} {last : Option FilterFields} {text : FilterFields → Option Bytes}
    {field : String} {parse : Bytes → Except FixedError β}
    (hfine : ∀ f, last = some f → ∀ err, ¬ Misses (text f) field parse err) :
    SlotSays last text parse ((last.map fun f => (valueOf (text f) field parse).toOption).getD none) := by
  cases last with
  | none => exact ⟨rfl, fun b => by simp⟩
  | some f =>
      cases hvalue : valueOf (text f) field parse with
      | error err => exact absurd (valueOf_error.mp hvalue) (hfine f rfl err)
      | ok b =>
          obtain ⟨t, htext, hparse⟩ := valueOf_ok.mp hvalue
          have hslot : ((some f).map fun f => (valueOf (text f) field parse).toOption).getD none =
              some b := by
            simp [hvalue, Except.toOption]
          rw [hslot]
          exact ⟨rfl, fun b' => by simp [htext, hparse]⟩

theorem lastFilter_spec {kinds : List Bytes} {filters : List FilterFields} {f : FilterFields}
    (h : lastFilter kinds filters = some f) : f ∈ filters ∧ f.isKind kinds = true :=
  ⟨List.mem_reverse.mp (List.mem_of_find?_eq_some h), List.find?_some h⟩

/-- What filters that none of fails leave, one value for each type. -/
theorem assignFilters_says {filters : List FilterFields} {values : FilterValues}
    (h : assignFilters ⟨none, none, none⟩ filters = .ok values) :
    SlotSays (lastFilter priceFilter filters) FilterFields.tickSize Increment.parse values.tick ∧
    SlotSays (lastFilter lotSize filters) FilterFields.stepSize Increment.parse values.lot ∧
    SlotSays (lastFilter notionals filters) FilterFields.notional Dec.parseBytes values.minNotional := by
  have hfine : ∀ f ∈ filters, ∀ err, ¬ f.Fails err := fine_of_foldlM assignFilter_error h
  rw [assignFilters_slot (fun h => (assignFilter_slots h).1) h,
    assignFilters_slot (fun h => (assignFilter_slots h).2.1) h,
    assignFilters_slot (fun h => (assignFilter_slots h).2.2) h]
  refine ⟨.of_last fun f hf err hmisses => ?_, .of_last fun f hf err hmisses => ?_,
    .of_last fun f hf err hmisses => ?_⟩
  · exact hfine f (lastFilter_spec hf).1 err (.tick (lastFilter_spec hf).2 hmisses)
  · exact hfine f (lastFilter_spec hf).1 err (.lot (lastFilter_spec hf).2 hmisses)
  · exact hfine f (lastFilter_spec hf).1 err (.minNotional (lastFilter_spec hf).2 hmisses)

def SymbolMember.step (fields : SymbolFields) : SymbolMember → Except DecodeError SymbolFields
  | symbol text =>
      match Symbol.new text with
      | none => .error (.unexpectedValue "symbol")
      | some s => .ok { fields with symbol := some s }
  | status text => .ok { fields with status := some (decide (text = ascii "TRADING")) }
  | filters fs =>
      (assignFilters fields.filters (fs.map .saidBy)).map fun filters => { fields with filters }
  | other _ _ => .ok fields

theorem readSymbolMember_takes {depth : Nat} (hdepth : depth + 1 < maxDepth) :
    TakesMember depth SymbolMember.name (SymbolMember.Value depth) readSymbolMember
      SymbolMember.step := by
  intro fields m v r r' hv hvalue
  cases m with
  | symbol text =>
      rw [SymbolMember.name, readSymbolMember, if_pos rfl, fromJson_eq_ok.mpr (TextOf.str hv hvalue)]
      simp only [bind, Except.bind, SymbolMember.step]
      cases Symbol.new text <;> rfl
  | status text =>
      rw [SymbolMember.name, readSymbolMember, if_neg (by simp [ascii]), if_pos rfl,
        fromJson_eq_ok.mpr (TextOf.str hv hvalue)]
      rfl
  | filters fs =>
      have hread := foldArray_takes (@readFilter_takes (depth + 1) hdepth) (filterText_opens _)
        (by omega) fields.filters fs v r r' hv hvalue
      dsimp only at hread
      rw [SymbolMember.name, readSymbolMember, if_neg (by simp [ascii]), if_neg (by simp [ascii]),
        if_pos rfl, hread, SymbolMember.step, assignFilters, List.foldlM_map]
      cases fs.foldlM (fun values ms => assignFilter (.saidBy ms) values) fields.filters <;> rfl
  | other name value =>
      obtain ⟨hname, hskipped, rfl⟩ := hv
      simp only [SymbolMember.names, List.map_cons, List.map_nil, List.mem_cons, List.not_mem_nil, or_false,
        not_or] at hname
      obtain ⟨hsymbol, hstatus, hfilters⟩ := hname
      rw [SymbolMember.name, readSymbolMember, if_neg hsymbol, if_neg hstatus, if_neg hfilters,
        fromJson_eq_ok.mpr (hskipped.skip (by omega) hvalue)]
      rfl

theorem symbol_new_none {text : Bytes} : Symbol.new text = none ↔ ∀ s : Symbol, s.text ≠ text := by
  unfold Symbol.new
  split_ifs with hvalid
  · exact ⟨False.elim, fun h => absurd rfl (h ⟨text, hvalid⟩)⟩
  · exact ⟨fun _ s hs => hvalid (hs ▸ s.valid), fun _ => rfl⟩

theorem symbol_new_some {text : Bytes} {s : Symbol} (h : Symbol.new text = some s) : s.text = text := by
  unfold Symbol.new at h
  split_ifs at h
  cases h
  rfl

/-- A member fails exactly with what is wrong with it. -/
theorem SymbolMember.step_error (fields : SymbolFields) (m : SymbolMember) (err : DecodeError) :
    step fields m = .error err ↔ m.Fails err := by
  cases m with
  | symbol text =>
      rw [step]
      cases hsymbol : Symbol.new text with
      | none =>
          refine ⟨fun h => ?_, fun h => ?_⟩
          · cases h
            exact .symbol (symbol_new_none.mp hsymbol)
          · cases h
            rfl
      | some s =>
          refine ⟨nofun, fun h => ?_⟩
          cases h with
          | symbol hbad => exact absurd (symbol_new_some hsymbol) (hbad s)
  | status text | other name value => exact ⟨nofun, nofun⟩
  | filters fs =>
      rw [step, except_map_eq_error, assignFilters_error]
      refine ⟨.filters, fun h => ?_⟩
      cases h with
      | filters hfirst => exact hfirst

/-- Members that come through leave what was said last. -/
theorem symbolMembers_said (ms : List SymbolMember) : ∀ {fields : SymbolFields},
    ms.foldlM SymbolMember.step ⟨none, none, ⟨none, none, none⟩⟩ = .ok fields →
      fields.symbol.map Symbol.text = lastOf SymbolMember.symbol? ms ∧
      fields.status = (lastOf SymbolMember.status? ms).map (fun text => decide (text = ascii "TRADING")) ∧
      assignFilters ⟨none, none, none⟩ (filtersIn ms) = .ok fields.filters := by
  induction ms using List.reverseRecOn with
  | nil =>
      intro fields h
      cases h
      exact ⟨rfl, rfl, rfl⟩
  | append_singleton ms m ih =>
      intro fields h
      rw [List.foldlM_append] at h
      obtain ⟨before, hbefore, h⟩ := except_bind_eq_ok.mp h
      obtain ⟨hsymbol, hstatus, hfilters⟩ := ih hbefore
      have hlast : SymbolMember.step before m = .ok fields := by
        obtain ⟨after, hafter, hsame⟩ := except_bind_eq_ok.mp h
        cases hsame
        exact hafter
      have hin : filtersIn (ms ++ [m]) =
          filtersIn ms ++ (m.filters?.toList.flatten).map .saidBy := by
        cases hm : m.filters? <;> simp [filtersIn, List.filterMap_append, hm]
      rw [lastOf_snoc, lastOf_snoc, hin, assignFilters_append, hfilters]
      cases m with
      | symbol text =>
          rw [SymbolMember.step] at hlast
          cases hnew : Symbol.new text with
          | none =>
              rw [hnew] at hlast
              cases hlast
          | some s =>
              rw [hnew] at hlast
              cases hlast
              exact ⟨congrArg some (symbol_new_some hnew), hstatus, rfl⟩
      | status text =>
          cases hlast
          exact ⟨hsymbol, rfl, rfl⟩
      | filters fs =>
          rw [SymbolMember.step] at hlast
          have hflat : (SymbolMember.filters fs).filters?.toList.flatten = fs := by
            simp [SymbolMember.filters?]
          rw [hflat]
          obtain ⟨filters, hassigned, rfl⟩ := except_map_eq_ok.mp hlast
          exact ⟨hsymbol, hstatus, hassigned⟩
      | other name value =>
          cases hlast
          exact ⟨hsymbol, hstatus, rfl⟩

/-- What a symbol comes to. -/
def symbolRules (ms : List SymbolMember) : Except DecodeError SymbolRules := do
  let fields ← ms.foldlM SymbolMember.step ⟨none, none, ⟨none, none, none⟩⟩
  finishSymbol fields

theorem finishSymbol_ok {fields : SymbolFields} {rule : SymbolRules} : finishSymbol fields = .ok rule ↔
    fields.symbol = some rule.symbol ∧ fields.status = some rule.trading ∧
      fields.filters.tick = some rule.tick ∧ fields.filters.lot = some rule.lot ∧
        fields.filters.minNotional = some rule.minNotional := by
  obtain ⟨symbol, status, tick, lot, minNotional⟩ := fields
  obtain ⟨_, _, _, _, _⟩ := rule
  cases symbol <;> cases status <;> cases tick <;> cases lot <;> cases minNotional <;>
    simp [finishSymbol, orMissing, bind, Except.bind]

/-- The rules of a symbol fail with the first part that is missing. -/
theorem finishSymbol_error {fields : SymbolFields} {err : DecodeError} :
    finishSymbol fields = .error err ↔
      FirstError Lacks [("symbol", fields.symbol.isSome), ("status", fields.status.isSome),
        ("tickSize", fields.filters.tick.isSome), ("stepSize", fields.filters.lot.isSome),
        ("minNotional", fields.filters.minNotional.isSome)] err := by
  obtain ⟨symbol, status, tick, lot, minNotional⟩ := fields
  cases symbol <;> cases status <;> cases tick <;> cases lot <;> cases minNotional <;>
    simp [finishSymbol, orMissing, bind, Except.bind, firstError_cons, firstError_nil, Lacks, eq_comm]

theorem symbolRules_ok {ms : List SymbolMember} {rule : SymbolRules} :
    symbolRules ms = .ok rule ↔ HasRules ms rule := by
  constructor
  · intro h
    obtain ⟨fields, hfields, h⟩ := except_bind_eq_ok.mp h
    obtain ⟨hsymbol, hstatus, hfilters⟩ := symbolMembers_said ms hfields
    obtain ⟨htick, hlot, hnotional⟩ := assignFilters_says hfilters
    obtain ⟨hsymbol', hstatus', htick', hlot', hnotional'⟩ := finishSymbol_ok.mp h
    rw [hstatus'] at hstatus
    obtain ⟨status, hlast, htrading⟩ := Option.map_eq_some_iff.mp hstatus.symm
    exact ⟨fine_of_foldlM SymbolMember.step_error hfields, by rw [← hsymbol, hsymbol']; rfl,
      ⟨status, hlast, htrading.symm⟩, (htick.value _).mp htick', (hlot.value _).mp hlot',
      (hnotional.value _).mp hnotional'⟩
  · intro h
    cases hfields : ms.foldlM SymbolMember.step ⟨none, none, ⟨none, none, none⟩⟩ with
    | error err =>
        have hfirst := (foldlM_error SymbolMember.step_error ms _ err).mp hfields
        exact absurd hfirst (no_firstError.mpr h.fine err)
    | ok fields =>
        obtain ⟨hsymbol, hstatus, hfilters⟩ := symbolMembers_said ms hfields
        obtain ⟨htick, hlot, hnotional⟩ := assignFilters_says hfilters
        obtain ⟨status, hlast, htrading⟩ := h.trading
        rw [h.symbol] at hsymbol
        obtain ⟨s, hs, htext⟩ := Option.map_eq_some_iff.mp hsymbol
        have hsame : s = rule.symbol := by
          cases s
          cases hrule : rule.symbol
          rw [hrule] at htext
          cases htext
          rfl
        refine except_bind_eq_ok.mpr ⟨fields, hfields, finishSymbol_ok.mpr ⟨hsame ▸ hs, ?_,
          (htick.value _).mpr h.tick, (hlot.value _).mpr h.lot, (hnotional.value _).mpr h.minNotional⟩⟩
        rw [hstatus, hlast, htrading]
        rfl

theorem symbolRules_error {ms : List SymbolMember} {err : DecodeError} :
    symbolRules ms = .error err ↔ SymbolFails ms err := by
  have hmembers := foldlM_error SymbolMember.step_error ms ⟨none, none, ⟨none, none, none⟩⟩
  rw [symbolRules]
  cases hfields : ms.foldlM SymbolMember.step ⟨none, none, ⟨none, none, none⟩⟩ with
  | error e =>
      have hfirst := (hmembers e).mp hfields
      constructor
      · intro h
        cases h
        exact .member hfirst
      · intro h
        cases h with
        | member hfirst' =>
            rw [(hmembers err).mpr hfirst'] at hfields
            cases hfields
            rfl
        | part hfine _ => exact absurd hfirst (no_firstError.mpr hfine e)
  | ok fields =>
      have hfine := fine_of_foldlM SymbolMember.step_error hfields
      obtain ⟨hsymbol, hstatus, hfilters⟩ := symbolMembers_said ms hfields
      obtain ⟨htick, hlot, hnotional⟩ := assignFilters_says hfilters
      have hparts : FirstError Lacks (parts ms) err ↔ finishSymbol fields = .error err := by
        rw [finishSymbol_error, parts, ← hsymbol, htick.isSome, hlot.isSome, hnotional.isSome, hstatus,
          Option.isSome_map, Option.isSome_map]
      constructor
      · intro h
        exact .part hfine (hparts.mpr h)
      · intro h
        cases h with
        | member hfirst => exact absurd hfirst (no_firstError.mpr hfine err)
        | part _ hfirst => exact hparts.mp hfirst

/-- A symbol goes behind those already read. -/
theorem readSymbol_takes {depth : Nat} (hroom : depth + 2 < maxDepth) :
    Takes depth (SymbolText depth)
      (fun (rules : List SymbolRules) r => do
        let (rule, r) ← readSymbol r
        .ok (rules ++ [rule], r))
      fun rules ms => (symbolRules ms).map fun rule => rules ++ [rule] := by
  intro rules ms t r r' hobject hvalue
  have hread := foldObject_takes (@readSymbolMember_takes (depth + 1) hroom) (by omega)
    ⟨none, none, ⟨none, none, none⟩⟩ ms t r r' hobject hvalue
  dsimp only at hread ⊢
  rw [readSymbol, hread, symbolRules]
  cases ms.foldlM SymbolMember.step ⟨none, none, ⟨none, none, none⟩⟩ with
  | error err => rfl
  | ok fields =>
      cases hfinish : finishSymbol fields <;> simp [hfinish, bind, Except.bind, Except.map]

theorem symbolText_opens (depth : Nat) : OpensItem (SymbolText depth) :=
  fun _ _ hobject => opens_objectOf hobject

/-! ## §6 Response -/

/-- The symbols of a list, in their order, behind those already read. -/
def addSymbols (rules : List SymbolRules) (symbols : List (List SymbolMember)) :
    Except DecodeError (List SymbolRules) :=
  symbols.foldlM (fun rules ms => (symbolRules ms).map fun rule => rules ++ [rule]) rules

def InfoMember.step (rules : List SymbolRules) : InfoMember → Except DecodeError (List SymbolRules)
  | symbols cs => addSymbols rules cs
  | other _ _ => .ok rules

theorem readInfoMember_takes :
    TakesMember 1 InfoMember.name (InfoMember.Value 1) readInfoMember InfoMember.step := by
  intro rules m v r r' hv hvalue
  cases m with
  | symbols cs =>
      rw [InfoMember.name, readInfoMember, if_pos rfl]
      exact foldArray_takes (@readSymbol_takes 2 (by decide)) (symbolText_opens 2) (by decide)
        rules cs v r r' hv hvalue
  | other name value =>
      obtain ⟨hname, hskipped, rfl⟩ := hv
      rw [InfoMember.name, readInfoMember, if_neg hname, fromJson_eq_ok.mpr (hskipped.skip (by decide) hvalue)]
      rfl

/-- The members of a response leave its symbols. -/
theorem infoMembers_symbols (ms : List InfoMember) : ∀ rules,
    ms.foldlM InfoMember.step rules = addSymbols rules (symbolsIn ms) := by
  induction ms with
  | nil => exact fun _ => rfl
  | cons m ms ih =>
      intro rules
      rw [List.foldlM_cons]
      simp only [ih]
      cases m with
      | symbols cs =>
          have hin : symbolsIn (.symbols cs :: ms) = cs ++ symbolsIn ms := rfl
          rw [hin, addSymbols, List.foldlM_append]
          rfl
      | other name value => rfl

theorem addSymbols_ok {symbols : List (List SymbolMember)} : ∀ {rules all : List SymbolRules},
    addSymbols rules symbols = .ok all ↔
      ∃ more, List.Forall₂ HasRules symbols more ∧ all = rules ++ more := by
  induction symbols with
  | nil =>
      intro rules all
      constructor
      · intro h
        cases h
        exact ⟨[], .nil, (List.append_nil _).symm⟩
      · rintro ⟨more, hmore, rfl⟩
        cases hmore
        rw [List.append_nil]
        rfl
  | cons ms symbols ih =>
      intro rules all
      rw [addSymbols, List.foldlM_cons]
      constructor
      · intro h
        obtain ⟨next, hnext, hrest⟩ := except_bind_eq_ok.mp h
        obtain ⟨rule, hrule, rfl⟩ := except_map_eq_ok.mp hnext
        obtain ⟨more, hmore, rfl⟩ := ih.mp hrest
        exact ⟨rule :: more, .cons (symbolRules_ok.mp hrule) hmore, by simp⟩
      · rintro ⟨more, hmore, rfl⟩
        cases hmore with
        | @cons _ rule _ more hrule hmore =>
            refine except_bind_eq_ok.mpr ⟨rules ++ [rule], except_map_eq_ok.mpr ?_, ?_⟩
            · exact ⟨rule, symbolRules_ok.mpr hrule, rfl⟩
            · exact ih.mpr ⟨more, hmore, by simp⟩

theorem addSymbols_error (symbols : List (List SymbolMember)) (rules : List SymbolRules)
    (err : DecodeError) :
    addSymbols rules symbols = .error err ↔ FirstError SymbolFails symbols err := by
  refine foldlM_error (fun rules ms err => ?_) symbols rules err
  rw [except_map_eq_error, symbolRules_error]

/-- A response comes to what its symbols come to. -/
theorem decodeExchangeInfo_complete {ms : List InfoMember} {message : Bytes}
    (hmessage : Padded (InfoText ms) message) :
    decodeExchangeInfo message = addSymbols [] (symbolsIn ms) := by
  obtain ⟨w, t, w', hw, hobject, hw', rfl⟩ := hmessage
  let r : Reader := ⟨w', (w ++ t).length, 0, true⟩
  have hvalue : ValueAt 0 t (Reader.new (w ++ (t ++ w'))) r := by
    refine ⟨⟨w, hw, by simp [Reader.new, r], by simp [Reader.new, r]⟩, rfl, rfl, rfl, fun b hb => ?_⟩
    rcases hw' b (List.mem_of_mem_head? hb) with rfl | rfl | rfl | rfl <;> rfl
  have hread := foldObject_takes readInfoMember_takes (by decide) [] ms t _ r hobject hvalue
  dsimp only at hread
  rw [infoMembers_symbols] at hread
  rw [decodeExchangeInfo, hread]
  have hfinish : fromJson r.finish = .ok () := fromJson_eq_ok.mpr (Reader.finish_eq_ok.mpr ⟨rfl, hw'⟩)
  cases addSymbols [] (symbolsIn ms) with
  | error err => rfl
  | ok rules =>
      show (fromJson r.finish >>= fun _ => .ok rules) = _
      rw [hfinish]
      rfl

/-- **Trading rules decode in any layout.** Whatever the order of its members at every
level, however often they come, and with any white space and members that nobody asked for
among them: a response decodes exactly to the rules of its symbols in their order, each
made of what was said last, with the values of its last filter of each type; and it fails
exactly with the error of the first symbol that has one, which is that of its first bad
name or filter, or else of the first part that is missing. -/
theorem info_decodes_in_any_layout (ms : List InfoMember) (message : Bytes)
    (hmessage : Padded (InfoText ms) message) :
    (∀ rules, decodeExchangeInfo message = .ok rules ↔ List.Forall₂ HasRules (symbolsIn ms) rules) ∧
      ∀ err, decodeExchangeInfo message = .error err ↔ FirstError SymbolFails (symbolsIn ms) err := by
  rw [decodeExchangeInfo_complete hmessage]
  refine ⟨fun rules => ?_, addSymbols_error (symbolsIn ms) []⟩
  rw [addSymbols_ok]
  exact ⟨fun ⟨_, hmore, hall⟩ => hall ▸ hmore, fun hrules => ⟨rules, hrules, rfl⟩⟩

/-! The layout without white space, with nothing that nobody asked for. -/

section Printed

variable {α : Type}

theorem objectOf_json {name : α → Bytes} {Value : α → Bytes → Prop} {text : α → Bytes} {as : List α}
    (h : ∀ a ∈ as, Rfc8259.PlainName (name a) ∧ Value a (text a)) :
    ObjectOf name Value as (objectJson (as.map fun a => (name a, text a))) := by
  refine ⟨[44].intercalate (as.map fun a => memberJson (name a, text a)),
    listed_intercalate fun a ha => ?_, by simp [objectJson, Function.comp_def]⟩
  obtain ⟨hname, hvalue⟩ := h a ha
  exact ⟨text a, hvalue, hname, trivial, [], [], white_nil, white_nil, by simp [memberJson]⟩

def arrayJson (texts : List Bytes) : Bytes := 91 :: ([44].intercalate texts ++ [93])

theorem arrayText_json {Core : α → Bytes → Prop} {text : α → Bytes} {as : List α}
    (h : ∀ a ∈ as, Core a (text a)) : ArrayText Core as (arrayJson (as.map text)) :=
  ⟨_, listed_intercalate h, rfl⟩

end Printed

/-- A text that needs no escapes. -/
def isPlain (text : Bytes) : Bool := text.all fun b => decide (33 ≤ b ∧ b ≤ 126 ∧ b ≠ 34 ∧ b ≠ 92)

theorem plainName_of_isPlain {text : Bytes} (h : isPlain text = true) : Rfc8259.PlainName text := by
  simp only [isPlain, List.all_eq_true, decide_eq_true_eq] at h
  exact plainName_of_visible (fun b hb => ⟨(h b hb).1, (h b hb).2.1⟩)
    (fun hmem => (h 34 hmem).2.2.1 rfl) fun hmem => (h 92 hmem).2.2.2 rfl

def FilterMember.text : FilterMember → Bytes
  | kind text | tickSize text | stepSize text | notional text => quote text
  | other _ value => value

/-- A member that was asked for, with a plain text. -/
def FilterMember.isPlain : FilterMember → Bool
  | kind text | tickSize text | stepSize text | notional text => Venue.isPlain text
  | other _ _ => false

def filterJson (ms : List FilterMember) : Bytes := objectJson (ms.map fun m => (m.name, m.text))

def SymbolMember.text : SymbolMember → Bytes
  | symbol text | status text => quote text
  | filters fs => arrayJson (fs.map filterJson)
  | other _ value => value

def SymbolMember.isPlain : SymbolMember → Bool
  | symbol text | status text => Venue.isPlain text
  | filters fs => fs.all fun ms => ms.all FilterMember.isPlain
  | other _ _ => false

def symbolJson (ms : List SymbolMember) : Bytes := objectJson (ms.map fun m => (m.name, m.text))

def infoJson (symbols : List (List SymbolMember)) : Bytes :=
  objectJson [(ascii "symbols", arrayJson (symbols.map symbolJson))]

/-- The names of the members are plain. -/
theorem memberNames_plain :
    ∀ name ∈ ascii "symbols" :: (FilterMember.names ++ SymbolMember.names), Rfc8259.PlainName name := by
  have hall : ∀ name ∈ ascii "symbols" :: (FilterMember.names ++ SymbolMember.names),
      isPlain name = true := by
    decide +kernel
  exact fun name hname => plainName_of_isPlain (hall name hname)

theorem filterText_json {ms : List FilterMember} (h : ms.all FilterMember.isPlain = true) (depth : Nat) :
    FilterText depth ms (filterJson ms) := by
  refine objectOf_json fun m hm => ?_
  have hplain := List.all_eq_true.mp h m hm
  cases m with
  | other name value => cases hplain
  | _ => exact ⟨memberNames_plain _ (by simp [FilterMember.names, FilterMember.name]),
      plainName_of_isPlain hplain, rfl⟩

theorem symbolText_json {ms : List SymbolMember} (h : ms.all SymbolMember.isPlain = true) (depth : Nat) :
    SymbolText depth ms (symbolJson ms) := by
  refine objectOf_json fun m hm => ?_
  have hplain := List.all_eq_true.mp h m hm
  refine ⟨?_, ?_⟩
  · cases m with
    | other name value => cases hplain
    | _ => exact memberNames_plain _ (by simp [SymbolMember.names, SymbolMember.name])
  · cases m with
    | other name value => cases hplain
    | symbol text | status text => exact ⟨plainName_of_isPlain hplain, rfl⟩
    | filters fs => exact arrayText_json fun ms hms => filterText_json (List.all_eq_true.mp hplain ms hms) _

/-- So there is a message for all plain contents. -/
theorem infoText_json {symbols : List (List SymbolMember)}
    (h : (symbols.all fun ms => ms.all SymbolMember.isPlain) = true) :
    Padded (InfoText [.symbols symbols]) (infoJson symbols) := by
  refine ⟨[], infoJson symbols, [], white_nil, ?_, white_nil, by simp⟩
  have hvalue : InfoMember.Value 1 (.symbols symbols) (arrayJson (symbols.map symbolJson)) :=
    arrayText_json fun ms hms => symbolText_json (List.all_eq_true.mp h ms hms) _
  let text : InfoMember → Bytes := fun _ => arrayJson (symbols.map symbolJson)
  have hobject : ObjectOf InfoMember.name (InfoMember.Value 1) [.symbols symbols]
      (objectJson ([.symbols symbols].map fun m => (InfoMember.name m, text m))) :=
    objectOf_json fun m hm => by
      obtain rfl := List.mem_singleton.mp hm
      exact ⟨memberNames_plain _ (List.mem_cons_self ..), hvalue⟩
  exact hobject

/-- Bitcoin in Tether: its filters come first, their types behind the values, with a filter
that is not used and an older tick size. -/
def btcContent : List SymbolMember :=
  [.filters [
      [.tickSize (ascii "0.5"), .kind (ascii "PRICE_FILTER")],
      [.kind (ascii "MARKET_LOT_SIZE"), .stepSize (ascii "1")],
      [.stepSize (ascii "0.001"), .kind (ascii "LOT_SIZE")],
      [.kind (ascii "NOTIONAL"), .notional (ascii "5")],
      [.tickSize (ascii "0.01"), .kind (ascii "PRICE_FILTER")]],
    .status (ascii "TRADING"), .symbol (ascii "BTCUSDT")]

def btcRules : SymbolRules where
  symbol := .btcUsdt
  trading := true
  tick := .decimals 2
  lot := .decimals 3
  minNotional := ⟨⟨5, by decide, by decide⟩, 0, by decide⟩

/-- A symbol that neither says its status nor has filters. -/
def bareContent : List SymbolMember := [.symbol (ascii "OLDUSDT")]

theorem btcContent_rules : btcContent.all SymbolMember.isPlain = true ∧
    symbolRules btcContent = .ok btcRules ∧ bareContent.all SymbolMember.isPlain = true ∧
      symbolRules bareContent = .error (.missingField "status") := by
  decide +kernel

/-- The rules of one symbol, and the error of the one behind it. -/
theorem btc_rules_decode : decodeExchangeInfo (infoJson [btcContent]) = .ok [btcRules] ∧
    decodeExchangeInfo (infoJson [btcContent, bareContent]) = .error (.missingField "status") := by
  obtain ⟨hplain, hrules, hplain', herror⟩ := btcContent_rules
  have hfine : ∀ err, ¬ SymbolFails btcContent err := by
    intro err hfails
    rw [symbolRules_error.mpr hfails] at hrules
    cases hrules
  constructor
  · refine ((info_decodes_in_any_layout _ _ (infoText_json ?_)).1 [btcRules]).mpr
      (.cons (symbolRules_ok.mp hrules) .nil)
    simp [hplain]
  · refine ((info_decodes_in_any_layout _ _ (infoText_json ?_)).2 _).mpr
      ⟨[btcContent], bareContent, [], rfl, ?_, symbolRules_error.mp herror⟩
    · simp [hplain, hplain']
    · exact fun ms hms => (List.mem_singleton.mp hms).symm ▸ hfine

end Bowst.Venue
