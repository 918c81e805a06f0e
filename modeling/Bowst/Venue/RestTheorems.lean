/-
Bowst.Venue.RestTheorems — the REST calls of market data
(`bowst-venue/src/binance/rest.rs`).

The base URL is what the configuration says, with or without slashes at its end. A
symbol may hold any visible ASCII, so also what has a meaning in a URL.

  §1 URLs     — every request goes to the configured server.
  §2 Tables   — what `InstrumentTable::new` accepts.
  §3 Start-up — the table that `load_instruments` returns.
-/
import Bowst.Venue.ExchangeInfoTheorems
import Bowst.Venue.NetTheorems
import Bowst.Venue.Rest
import Bowst.Venue.SessionTheorems

namespace Bowst.Venue

open Bowst.Core Bowst.Lib

/-! ## §1 URLs -/

namespace Url

theorem ofName_eq_some {name : Bytes} {scheme : Scheme} :
    Scheme.ofName name = some scheme ↔ name = schemeName scheme := by
  constructor
  · intro h
    unfold Scheme.ofName at h
    split_ifs at h with hws hwss hhttp hhttps
    all_goals
      cases h
      assumption
  · rintro rfl
    exact (schemeName_spec scheme).1

/-- The scheme of a URL stands before the first `://` of its text. -/
theorem parse_eq_ok {text : Bytes} {url : Url} (h : parse text = .ok url) :
    ∃ scheme rest, text = schemeName scheme ++ schemeEnd ++ rest ∧ parseRest scheme rest = .ok url := by
  have hparse := h
  unfold parse at h
  split at h
  · cases h
  · rename_i at_ hfind
    split at h
    · cases h
    · rename_i scheme hname
      obtain ⟨rest, hrest⟩ := findPattern_prefix hfind
      have htext : text = schemeName scheme ++ schemeEnd ++ rest := by
        rw [← ofName_eq_some.mp hname, List.append_assoc, hrest, List.take_append_drop]
      refine ⟨scheme, rest, htext, ?_⟩
      rw [← parse_scheme, ← htext]
      exact hparse

/-- The parts of what stands behind the scheme. -/
structure Parts (scheme : Scheme) (url : Url) (authority path : Bytes) : Prop where
  scheme_eq : url.scheme = scheme
  host : parseAuthority scheme authority = .ok (url.host, url.port)
  host_ne : url.host ≠ []
  authority : ∀ b ∈ authority, PathByte b ∧ endsAuthority b = false ∧ b ≠ 64 ∧ b ≠ 91
  path_head : ∀ b ∈ path.head?, endsAuthority b = true
  path_bytes : ∀ b ∈ path, PathByte b
  path_eq : url.path = if path.head? = some 47 then path else 47 :: path

theorem parseRest_refused {scheme : Scheme} {rest : Bytes} (h : ∃ b ∈ rest, ¬ PathByte b) :
    parseRest scheme rest = .error (.invalidUrl "fragment, space or non-ASCII") := by
  obtain ⟨b, hb, hbyte⟩ := h
  have hrefused : (rest.any (fun b => b == 35 || b == 32) || rest.any fun b => decide (128 ≤ b)) = true := by
    simp only [Bool.or_eq_true, List.any_eq_true, beq_iff_eq, decide_eq_true_eq]
    by_cases hmark : b = 35 ∨ b = 32
    · exact .inl ⟨b, hb, hmark⟩
    · rw [not_or] at hmark
      exact .inr ⟨b, hb, UInt8.not_lt.mp fun hlt => hbyte ⟨hlt, hmark.1, hmark.2⟩⟩
  rw [parseRest, if_pos hrefused]

theorem parseRest_eq_ok {scheme : Scheme} {rest : Bytes} {url : Url} :
    parseRest scheme rest = .ok url ↔
      ∃ authority path, rest = authority ++ path ∧ Parts scheme url authority path := by
  by_cases hbytes : ∃ b ∈ rest, ¬ PathByte b
  · rw [parseRest_refused hbytes]
    obtain ⟨b, hb, hbyte⟩ := hbytes
    constructor
    · intro h
      cases h
    · rintro ⟨authority, path, rfl, hparts⟩
      rcases List.mem_append.mp hb with hb | hb
      · exact absurd (hparts.authority b hb).1 hbyte
      · exact absurd (hparts.path_bytes b hb) hbyte
  simp only [not_exists, not_and, not_not] at hbytes
  have hplain : ¬ (rest.any (fun b => b == 35 || b == 32) || rest.any fun b => decide (128 ≤ b)) = true := by
    simp only [Bool.or_eq_true, List.any_eq_true, not_or, not_exists, not_and, beq_iff_eq, decide_eq_true_eq]
    exact ⟨fun b hb => (hbytes b hb).2, fun b hb => UInt8.not_le.mpr (hbytes b hb).1⟩
  rw [parseRest, if_neg hplain]
  dsimp only
  constructor
  · intro h
    split at h
    · cases h
    · rename_i hauthority
      split at h
      · cases h
      · rename_i host port hhost
        split at h
        · cases h
        · rename_i hne
          cases h
          refine ⟨_, _, List.takeWhile_append_dropWhile.symm, rfl, hhost, hne, fun b hb => ?_,
            fun b hb => ?_, fun b hb => hbytes b ((List.dropWhile_suffix _).subset hb), rfl⟩
          · simp only [List.any_eq_true, not_exists, not_and, Bool.or_eq_true, beq_iff_eq,
              not_or] at hauthority
            exact ⟨hbytes b ((List.takeWhile_prefix _).subset hb),
              by simpa using List.mem_takeWhile_imp hb, hauthority b hb⟩
          · have hhead := List.head?_dropWhile_not (fun b => !endsAuthority b) rest
            rw [Option.mem_def.mp hb] at hhead
            simpa using hhead
  · rintro ⟨authority, path, rfl, hparts⟩
    have hends : ∀ b ∈ authority, (!endsAuthority b) = true := fun b hb => by
      simp [(hparts.authority b hb).2.1]
    have hpath : path.takeWhile (fun b => !endsAuthority b) = [] ∧
        path.dropWhile (fun b => !endsAuthority b) = path := by
      cases path with
      | nil => exact ⟨rfl, rfl⟩
      | cons b path => simp [hparts.path_head b (by simp)]
    have hauthority : ¬ authority.any (fun b => b == 64 || b == 91) = true := by
      simp only [List.any_eq_true, not_exists, not_and, Bool.or_eq_true, beq_iff_eq, not_or]
      exact fun b hb => (hparts.authority b hb).2.2
    rw [List.takeWhile_append_of_pos hends, List.dropWhile_append_of_pos hends, hpath.1, hpath.2,
      List.append_nil, if_neg hauthority, hparts.host]
    dsimp only
    rw [if_neg hparts.host_ne, ← hparts.path_eq, ← hparts.scheme_eq]

end Url

theorem front_trimSlashes (text : Bytes) : trimSlashes text <+: text := by
  rw [trimSlashes, ← List.reverse_suffix, List.reverse_reverse]
  exact List.dropWhile_suffix _

/-- Slashes at the end of the second part are those at the end of the whole. -/
theorem trimSlashes_append (front : Bytes) {b : UInt8} (hb : b ≠ 47) (back : Bytes) :
    trimSlashes (front ++ b :: back) = front ++ b :: trimSlashes back := by
  have hreverse : (front ++ b :: back).reverse = back.reverse ++ b :: front.reverse := by simp
  rw [trimSlashes, trimSlashes, hreverse, List.dropWhile_append]
  split
  · rename_i hempty
    rw [List.isEmpty_iff.mp hempty, List.dropWhile_cons_of_neg (by simpa using hb)]
    simp
  · simp

theorem head_trimSlashes {text : Bytes} : ∀ b ∈ (trimSlashes text).head?, b ∈ text.head? := by
  intro b hb
  obtain ⟨rest, hrest⟩ := front_trimSlashes text
  cases htrimmed : trimSlashes text with
  | nil => simp [htrimmed] at hb
  | cons c trimmed =>
      rw [htrimmed] at hb hrest
      rw [← hrest]
      exact hb

/-- The parts of a base without the slashes at its end. -/
theorem base_parts {restBase : Bytes} {base : Url} (h : Url.parse restBase = .ok base) :
    ∃ scheme authority path, Url.Parts scheme base authority path ∧ ∀ target,
      trimSlashes restBase ++ target =
        Url.schemeName scheme ++ Url.schemeEnd ++ (authority ++ (trimSlashes path ++ target)) := by
  obtain ⟨scheme, rest, rfl, hrest⟩ := Url.parse_eq_ok h
  obtain ⟨authority, path, rfl, hparts⟩ := Url.parseRest_eq_ok.mp hrest
  refine ⟨scheme, authority, path, hparts, fun target => ?_⟩
  -- The authority is not empty, so no slash of the scheme is at the end.
  rcases List.eq_nil_or_concat authority with rfl | ⟨front, b, rfl⟩
  · have hhost := hparts.host
    simp only [Url.parseAuthority, splitOnce, Except.ok.injEq, Prod.mk.injEq] at hhost
    exact absurd hhost.1.symm hparts.host_ne
  · have hb : b ≠ 47 := fun heq => by
      have hends := (hparts.authority b (by simp)).2.1
      rw [heq] at hends
      exact absurd hends (by decide)
    have htrim := trimSlashes_append (Url.schemeName scheme ++ Url.schemeEnd ++ front) hb path
    simp only [List.append_assoc, List.cons_append, List.nil_append, List.concat_eq_append] at htrim ⊢
    rw [htrim]
    simp

/-- What is asked for behind a base goes to the server of the base. -/
theorem parse_behind {restBase : Bytes} {base : Url} (h : Url.parse restBase = .ok base) {target : Bytes}
    (hslash : target.head? = some 47) (htarget : ∀ b ∈ target, Url.PathByte b) :
    Url.parse (trimSlashes restBase ++ target) =
      .ok { base with path := trimSlashes base.path ++ target } := by
  obtain ⟨scheme, authority, path, hparts, htrim⟩ := base_parts h
  obtain ⟨tail, rfl⟩ := List.head?_eq_some_iff.mp hslash
  rw [htrim, Url.parse_scheme]
  refine Url.parseRest_eq_ok.mpr ⟨authority, trimSlashes path ++ 47 :: tail, rfl, hparts.scheme_eq,
    hparts.host, hparts.host_ne, hparts.authority, ?_, ?_, ?_⟩
  · intro c hc
    cases htrimmed : trimSlashes path with
    | nil =>
        rw [htrimmed] at hc
        obtain rfl : 47 = c := by simpa using hc
        decide
    | cons d trimmed =>
        rw [htrimmed] at hc
        exact hparts.path_head c (head_trimSlashes c (by rw [htrimmed]; exact hc))
  · intro c hc
    rcases List.mem_append.mp hc with hc | hc
    · exact hparts.path_bytes c ((front_trimSlashes path).subset hc)
    · exact htarget c hc
  · show trimSlashes base.path ++ 47 :: tail = _
    rw [hparts.path_eq]
    cases path with
    | nil => simp [trimSlashes]
    | cons c path =>
        by_cases hc : c = 47
        · subst hc
          have hhead : (trimSlashes (47 :: path) ++ 47 :: tail).head? = some 47 := by
            cases htrimmed : trimSlashes (47 :: path) with
            | nil => rfl
            | cons d trimmed => exact (head_trimSlashes d (by rw [htrimmed]; rfl)).symm
          rw [if_pos hhead, if_pos (show (47 :: path).head? = some 47 from rfl)]
        · -- A query right behind the authority: the slash stands before it.
          have hpath := trimSlashes_append [47] hc path
          have hquery := trimSlashes_append [] hc path
          simp only [List.nil_append, List.cons_append] at hpath hquery
          rw [if_neg (by simpa using hc), hpath, hquery, if_neg (by simpa using hc)]
          rfl

theorem parse_behind_refused {restBase : Bytes} {base : Url} (h : Url.parse restBase = .ok base)
    {target : Bytes} (htarget : ∃ b ∈ target, ¬ Url.PathByte b) :
    Url.parse (trimSlashes restBase ++ target) =
      .error (.invalidUrl "fragment, space or non-ASCII") := by
  obtain ⟨scheme, authority, path, -, htrim⟩ := base_parts h
  obtain ⟨b, hb, hbyte⟩ := htarget
  rw [htrim, Url.parse_scheme]
  exact Url.parseRest_refused ⟨b, by simp [hb], hbyte⟩

/-- What a depth snapshot is asked for by. -/
def depthTarget (symbol : Symbol) (limit : UInt32) : Bytes :=
  ascii "/api/v3/depth?symbol=" ++ symbol.text ++ ascii "&limit=" ++
    natText (min limit maxDepthLimit).toNat

/-- What the trading rules are asked for by: the symbols as a JSON array, percent-encoded. -/
def exchangeInfoTarget (symbols : List Symbol) : Bytes :=
  ascii "/api/v3/exchangeInfo?symbols=%5B" ++
    ((symbols.map fun s => ascii "%22" ++ s.text ++ ascii "%22").intersperse (ascii ",")).flatten ++
    ascii "%5D"

/-- The URL of a target at the server of a base. -/
def atServer (base : Url) (target : Bytes) : Url :=
  { base with path := trimSlashes base.path ++ target }

/-- A text with separators between its pieces, over a byte that no separator holds. -/
theorem exists_mem_intersperse {P : UInt8 → Prop} {sep : Bytes} (hsep : ∀ b ∈ sep, ¬ P b) :
    ∀ {pieces : List Bytes}, (∃ b ∈ (pieces.intersperse sep).flatten, P b) ↔
      ∃ piece ∈ pieces, ∃ b ∈ piece, P b := by
  intro pieces
  induction pieces with
  | nil => simp
  | cons piece pieces ih =>
      cases pieces with
      | nil => simp
      | cons next pieces =>
          have hnone : ¬ ∃ b ∈ sep, P b := by simpa using hsep
          simp only [List.intersperse_cons_cons, List.flatten_cons, List.mem_append, or_and_right,
            exists_or, hnone, false_or, ih]
          simp only [List.mem_cons, exists_eq_or_imp]

/-- A symbol holds visible ASCII: what cannot stand in a path is a hash. -/
theorem exists_mem_symbol (symbol : Symbol) :
    (∃ b ∈ symbol.text, ¬ Url.PathByte b) ↔ 35 ∈ symbol.text := by
  constructor
  · rintro ⟨b, hb, hbyte⟩
    have hvalid := symbol.valid
    simp only [validSymbol, Bool.and_eq_true, List.all_eq_true] at hvalid
    have hgraphic := hvalid.2 b hb
    simp only [isAsciiGraphic, decide_eq_true_eq, UInt8.le_iff_toNat_le, UInt8.reduceToNat] at hgraphic
    by_contra hhash
    refine hbyte ⟨?_, fun heq => hhash (heq ▸ hb), ?_⟩
    · simp only [UInt8.lt_iff_toNat_lt, UInt8.reduceToNat]
      omega
    · simp only [ne_eq, ← UInt8.toNat_inj, UInt8.reduceToNat]
      omega
  · intro hhash
    exact ⟨35, hhash, by decide⟩

theorem pathByte_natText (n : Nat) : ∀ b ∈ natText n, Url.PathByte b := fun b hb =>
  have hbyte := Url.natText_hostByte n b hb
  ⟨hbyte.1, hbyte.2.1, hbyte.2.2.1⟩

theorem exists_mem_depthTarget (symbol : Symbol) (limit : UInt32) :
    (∃ b ∈ depthTarget symbol limit, ¬ Url.PathByte b) ↔ 35 ∈ symbol.text := by
  have hpath : ¬ ∃ b ∈ ascii "/api/v3/depth?symbol=", ¬ Url.PathByte b := by simp [ascii, Url.PathByte]
  have hlimit : ¬ ∃ b ∈ ascii "&limit=", ¬ Url.PathByte b := by simp [ascii, Url.PathByte]
  have hnumber : ¬ ∃ b ∈ natText (min limit maxDepthLimit).toNat, ¬ Url.PathByte b := by
    simpa using pathByte_natText _
  simp only [depthTarget, List.mem_append, or_and_right, exists_or, hpath, hlimit, hnumber, false_or,
    or_false]
  exact exists_mem_symbol symbol

theorem exists_mem_exchangeInfoTarget (symbols : List Symbol) :
    (∃ b ∈ exchangeInfoTarget symbols, ¬ Url.PathByte b) ↔ ∃ s ∈ symbols, 35 ∈ s.text := by
  have hopening : ¬ ∃ b ∈ ascii "/api/v3/exchangeInfo?symbols=%5B", ¬ Url.PathByte b := by
    simp [ascii, Url.PathByte]
  have hclosing : ¬ ∃ b ∈ ascii "%5D", ¬ Url.PathByte b := by simp [ascii, Url.PathByte]
  have hcomma : ∀ b ∈ ascii ",", ¬ ¬ Url.PathByte b := by simp [ascii, Url.PathByte]
  have hquote : ¬ ∃ b ∈ ascii "%22", ¬ Url.PathByte b := by simp [ascii, Url.PathByte]
  simp only [exchangeInfoTarget, List.mem_append, or_and_right, exists_or, hopening, hclosing, false_or,
    or_false]
  rw [exists_mem_intersperse hcomma]
  simp only [List.mem_map, exists_exists_and_eq_and, List.mem_append, or_and_right, exists_or, hquote,
    false_or, or_false, exists_mem_symbol]

/-- Every request goes to the scheme, the host and the port of the configured base, and
its path is the base's, without the slashes at its end, with the target behind it. It is
refused exactly when a symbol holds a hash. -/
theorem rest_urls_keep_the_server (restBase : Bytes) (base : Url) (h : Url.parse restBase = .ok base) :
    (∀ symbol limit, depthUrl restBase symbol limit =
      if 35 ∈ symbol.text then .error (.invalidUrl "fragment, space or non-ASCII")
      else .ok (atServer base (depthTarget symbol limit))) ∧
    ∀ symbols, exchangeInfoUrl restBase symbols =
      if ∃ s ∈ symbols, 35 ∈ s.text then .error (.invalidUrl "fragment, space or non-ASCII")
      else .ok (atServer base (exchangeInfoTarget symbols)) := by
  have hask : ∀ target : Bytes, target.head? = some 47 →
      Url.parse (trimSlashes restBase ++ target) =
        if ∃ b ∈ target, ¬ Url.PathByte b then .error (.invalidUrl "fragment, space or non-ASCII")
        else .ok (atServer base target) := by
    intro target hslash
    split_ifs with hbytes
    · exact parse_behind_refused h hbytes
    · exact parse_behind h hslash (by simpa using hbytes)
  constructor
  · intro symbol limit
    have hurl := hask (depthTarget symbol limit) rfl
    simp only [exists_mem_depthTarget] at hurl
    rw [← hurl, depthUrl, depthTarget]
    simp only [List.append_assoc]
  · intro symbols
    have hurl := hask (exchangeInfoTarget symbols) rfl
    simp only [exists_mem_exchangeInfoTarget] at hurl
    rw [← hurl, exchangeInfoUrl, exchangeInfoTarget]
    simp only [List.append_assoc]

/-- A base with a port, a path and slashes at its end. -/
theorem sample_rest_urls :
    depthUrl (ascii "https://localhost:8443/mirror//") .btcUsdt 9999 =
      .ok ⟨.https, ascii "localhost", 8443, ascii "/mirror/api/v3/depth?symbol=BTCUSDT&limit=5000"⟩ := by
  have hbase : Url.parse (ascii "https://localhost:8443/mirror//") =
      .ok ⟨.https, ascii "localhost", 8443, ascii "/mirror//"⟩ := by decide +kernel
  rw [(rest_urls_keep_the_server _ _ hbase).1 .btcUsdt 9999, if_neg (by decide)]
  decide +kernel

/-! ## §2 Tables -/

/-- Instruments that may stand in one table. -/
def Apart (a b : Instrument) : Prop := ¬ (a.venue = b.venue ∧ a.symbol = b.symbol)

theorem checkInstrument_eq_ok {before : List Instrument} {instrument : Instrument} :
    checkInstrument before instrument = .ok () ↔
      instrument.id.index = before.length ∧ ∀ other ∈ before, Apart other instrument := by
  unfold checkInstrument Apart
  split_ifs with hid hany
  · simp [hid]
  · simp only [List.any_eq_true, Bool.and_eq_true, decide_eq_true_eq] at hany
    obtain ⟨other, hother, hsame⟩ := hany
    simp only [false_iff, not_and, not_forall, not_not]
    exact fun _ => ⟨other, hother, hsame.1, hsame.2⟩
  · simpa [not_not.mp hid] using hany

/-- IDs are positions, and no two instruments are the same. -/
theorem checkInstruments_eq_ok : ∀ {rest before : List Instrument},
    checkInstruments before rest = .ok () ↔
      (∀ n instrument, rest[n]? = some instrument → instrument.id.index = before.length + n) ∧
      rest.Pairwise Apart ∧ ∀ a ∈ before, ∀ b ∈ rest, Apart a b := by
  intro rest
  induction rest with
  | nil => simp [checkInstruments]
  | cons first rest ih =>
      intro before
      have hstep : checkInstruments before (first :: rest) = .ok () ↔
          checkInstrument before first = .ok () ∧ checkInstruments (before ++ [first]) rest = .ok () := by
        rw [checkInstruments, except_bind_eq_ok]
        exact ⟨fun ⟨_, h⟩ => h, fun h => ⟨(), h⟩⟩
      rw [hstep, checkInstrument_eq_ok, ih, List.pairwise_cons]
      constructor
      · rintro ⟨⟨hid, hfirst⟩, hids, hpair, hrest⟩
        refine ⟨fun n instrument hn => ?_, ⟨fun b hb => hrest first (by simp) b hb, hpair⟩,
          fun a ha b hb => ?_⟩
        · cases n with
          | zero =>
              cases hn
              exact hid
          | succ n =>
              have hlater := hids n instrument hn
              rw [List.length_append, List.length_singleton] at hlater
              omega
        · rcases List.mem_cons.mp hb with rfl | hb
          · exact hfirst a ha
          · exact hrest a (by simp [ha]) b hb
      · rintro ⟨hids, ⟨hlater, hpair⟩, hbefore⟩
        refine ⟨⟨hids 0 first rfl, fun a ha => hbefore a ha first (by simp)⟩, fun n instrument hn => ?_,
          hpair, fun a ha b hb => ?_⟩
        · have hid := hids (n + 1) instrument hn
          rw [List.length_append, List.length_singleton]
          omega
        · rcases List.mem_append.mp ha with ha | ha
          · exact hbefore a ha b (by simp [hb])
          · rw [List.mem_singleton.mp ha]
            exact hlater b hb

theorem new_eq_ok {instruments : List Instrument} {table : InstrumentTable} :
    InstrumentTable.new instruments = .ok table ↔
      table.instruments = instruments ∧ checkInstruments [] instruments = .ok () := by
  obtain ⟨listed, hvalid⟩ := table
  unfold InstrumentTable.new
  split
  · rename_i hcheck
    simp only [Except.ok.injEq, InstrumentTable.mk.injEq]
    exact ⟨fun h => ⟨h.symm, hcheck⟩, fun h => h.1.symm⟩
  · rename_i err hcheck
    simp [hcheck]

/-! ## §3 Start-up -/

/-- The rules that are used for a symbol: the first ones that are listed for it. -/
def rulesOf (rules : List SymbolRules) (symbol : Symbol) : Option SymbolRules :=
  rules.find? fun r => r.symbol = symbol

/-- The instrument with these rules, at a position of the table. -/
def SymbolRules.instrument (rule : SymbolRules) (index : Nat) : Instrument where
  id := .ofIndex index
  venue := .binance
  symbol := rule.symbol
  tick := rule.tick
  lot := rule.lot
  minNotional := rule.minNotional

/-- A symbol that is listed and trading, at a position that is an ID. -/
def LoadedAs (rules : List SymbolRules) (index : Nat) (symbol : Symbol) (instrument : Instrument) : Prop :=
  index < 2 ^ 32 ∧
    ∃ rule, rulesOf rules symbol = some rule ∧ rule.trading = true ∧ instrument = rule.instrument index

theorem loadInstrument_eq_ok {rules : List SymbolRules} {index : Nat} {symbol : Symbol}
    {instrument : Instrument} :
    loadInstrument rules index symbol = .ok instrument ↔ LoadedAs rules index symbol instrument := by
  unfold loadInstrument LoadedAs rulesOf
  cases rules.find? fun r => r.symbol = symbol with
  | none => simp
  | some rule =>
      simp only [Option.some.injEq, exists_eq_left']
      cases htrading : rule.trading with
      | false => simp
      | true =>
          simp only [Bool.not_true, Bool.false_eq_true, if_false, true_and]
          split_ifs with hindex
          · simp only [false_iff, not_and]
            omega
          · rw [Except.ok.injEq]
            exact ⟨fun h => ⟨by omega, h.symm⟩, fun h => h.2.symm⟩

theorem LoadedAs.symbol_eq {rules : List SymbolRules} {index : Nat} {symbol : Symbol}
    {instrument : Instrument} (h : LoadedAs rules index symbol instrument) : instrument.symbol = symbol := by
  obtain ⟨-, rule, hrule, -, rfl⟩ := h
  show rule.symbol = symbol
  simpa using List.find?_some hrule

/-- One instrument for every symbol, in the order given. -/
theorem loadLoop_eq_ok {rules : List SymbolRules} : ∀ {symbols : List Symbol} {index : Nat}
    {instruments : List Instrument}, loadLoop rules index symbols = .ok instruments ↔
      instruments.length = symbols.length ∧ ∀ n symbol, symbols[n]? = some symbol →
        ∃ instrument, instruments[n]? = some instrument ∧ LoadedAs rules (index + n) symbol instrument := by
  intro symbols
  induction symbols with
  | nil =>
      intro index instruments
      simp [loadLoop, eq_comm]
  | cons symbol symbols ih =>
      intro index instruments
      rw [loadLoop, except_bind_eq_ok]
      constructor
      · rintro ⟨first, hfirst, h⟩
        obtain ⟨rest, hrest, h⟩ := except_bind_eq_ok.mp h
        cases h
        obtain ⟨hlength, hall⟩ := ih.mp hrest
        refine ⟨by simp [hlength], fun n other hn => ?_⟩
        cases n with
        | zero =>
            cases hn
            exact ⟨first, rfl, loadInstrument_eq_ok.mp hfirst⟩
        | succ n =>
            obtain ⟨instrument, hget, hloads⟩ := hall n other hn
            exact ⟨instrument, hget, by rw [← Nat.add_assoc, Nat.add_right_comm]; exact hloads⟩
      · rintro ⟨hlength, hall⟩
        cases instruments with
        | nil => simp at hlength
        | cons first rest =>
            obtain ⟨instrument, hget, hloads⟩ := hall 0 symbol rfl
            cases hget
            have hrest : loadLoop rules (index + 1) symbols = .ok rest := by
              refine ih.mpr ⟨by simpa using hlength, fun n other hn => ?_⟩
              obtain ⟨instrument, hget, hloads⟩ := hall (n + 1) other hn
              exact ⟨instrument, hget, by rw [Nat.add_right_comm]; exact hloads⟩
            exact ⟨first, loadInstrument_eq_ok.mpr hloads, by rw [hrest]; rfl⟩

/-- What was loaded is accepted exactly when no symbol was given twice. -/
theorem checkInstruments_loaded {rules : List SymbolRules} {symbols : List Symbol}
    {instruments : List Instrument} (h : loadLoop rules 0 symbols = .ok instruments) :
    checkInstruments [] instruments = .ok () ↔ symbols.Nodup := by
  obtain ⟨hlength, hall⟩ := loadLoop_eq_ok.mp h
  have hloaded : ∀ n (instrument : Instrument), instruments[n]? = some instrument →
      ∃ symbol, symbols[n]? = some symbol ∧ LoadedAs rules n symbol instrument := by
    intro n instrument hn
    have hlt : n < symbols.length := hlength ▸ (List.getElem?_eq_some_iff.mp hn).1
    obtain ⟨other, hother, hloads⟩ := hall n symbols[n] (List.getElem?_eq_getElem hlt)
    obtain rfl : instrument = other := Option.some.inj (hn.symm.trans hother)
    exact ⟨_, List.getElem?_eq_getElem hlt, by simpa using hloads⟩
  have hsymbols : instruments.map Instrument.symbol = symbols := by
    refine List.ext_getElem? fun n => ?_
    rw [List.getElem?_map]
    cases hn : instruments[n]? with
    | none =>
        have hle : symbols.length ≤ n := hlength ▸ List.getElem?_eq_none_iff.mp hn
        exact (List.getElem?_eq_none hle).symm
    | some instrument =>
        obtain ⟨symbol, hsymbol, hloads⟩ := hloaded n instrument hn
        rw [hsymbol, Option.map_some, hloads.symbol_eq]
  have hvenue : ∀ i ∈ instruments, i.venue = .binance := by
    intro i hi
    obtain ⟨n, hn⟩ := List.mem_iff_getElem?.mp hi
    obtain ⟨symbol, -, -, rule, -, -, rfl⟩ := hloaded n i hn
    rfl
  rw [checkInstruments_eq_ok, ← hsymbols, List.Nodup, List.pairwise_map]
  have hapart : instruments.Pairwise Apart ↔ instruments.Pairwise fun a b => a.symbol ≠ b.symbol :=
    List.Pairwise.iff_of_mem fun {a b} ha hb => by simp [Apart, hvenue a ha, hvenue b hb]
  rw [hapart]
  refine ⟨fun h => h.2.1, fun h => ⟨fun n instrument hn => ?_, h, by simp⟩⟩
  obtain ⟨symbol, -, hindex, rule, -, -, rfl⟩ := hloaded n instrument hn
  rw [List.length_nil, Nat.zero_add]
  exact ofIndex_index hindex

/-- A symbol that is listed and trading. -/
def Trades (rules : List SymbolRules) (symbol : Symbol) : Prop :=
  ∃ rule, rulesOf rules symbol = some rule ∧ rule.trading = true

theorem loadLoop_trades {rules : List SymbolRules} : ∀ {symbols : List Symbol} {index : Nat},
    index + symbols.length ≤ 2 ^ 32 → (∀ s ∈ symbols, Trades rules s) →
      ∃ instruments, loadLoop rules index symbols = .ok instruments := by
  intro symbols
  induction symbols with
  | nil => intro index _ _; exact ⟨[], rfl⟩
  | cons symbol symbols ih =>
      intro index hfits htrades
      rw [List.length_cons] at hfits
      obtain ⟨rule, hrule, htrading⟩ := htrades symbol (by simp)
      have hfirst : loadInstrument rules index symbol = .ok (rule.instrument index) :=
        loadInstrument_eq_ok.mpr ⟨by omega, rule, hrule, htrading, rfl⟩
      obtain ⟨rest, hrest⟩ : ∃ rest, loadLoop rules (index + 1) symbols = .ok rest :=
        ih (by omega) fun s hs => htrades s (by simp [hs])
      refine ⟨rule.instrument index :: rest, ?_⟩
      rw [loadLoop, hfirst]
      show (loadLoop rules (index + 1) symbols >>= _) = _
      rw [hrest]
      rfl

/-- Every symbol that was loaded is listed, and the last one is at a place that is an ID. -/
theorem trades_of_loadLoop {rules : List SymbolRules} {symbols : List Symbol}
    {instruments : List Instrument} (h : loadLoop rules 0 symbols = .ok instruments) :
    symbols.length ≤ 2 ^ 32 ∧ ∀ s ∈ symbols, Trades rules s := by
  obtain ⟨-, hall⟩ := loadLoop_eq_ok.mp h
  constructor
  · by_contra hlong
    obtain ⟨_, -, hindex, -⟩ := hall (2 ^ 32) _ (List.getElem?_eq_getElem (by omega))
    omega
  · intro s hs
    obtain ⟨n, hn⟩ := List.mem_iff_getElem?.mp hs
    obtain ⟨_, -, -, rule, hrule, htrading, -⟩ := hall n s hn
    exact ⟨rule, hrule, htrading⟩

/-- The rules that the server answers with. -/
def Answered (restBase : Bytes) (symbols : List Symbol) (got : Url → Except NetError (Response × Bytes))
    (rules : List SymbolRules) : Prop :=
  ∃ url response body, exchangeInfoUrl restBase symbols = .ok url ∧ got url = .ok (response, body) ∧
    response.status = 200 ∧ decodeExchangeInfo body = .ok rules

theorem mapError_eq_ok {ε ε' α : Type} {res : Except ε α} {f : ε → ε'} {a : α} :
    res.mapError f = .ok a ↔ res = .ok a := by
  cases res <;> simp [Except.mapError]

theorem loadInstruments_eq_ok {restBase : Bytes} {symbols : List Symbol}
    {got : Url → Except NetError (Response × Bytes)} {table : InstrumentTable} :
    loadInstruments restBase symbols got = .ok table ↔
      ∃ rules, Answered restBase symbols got rules ∧ loadLoop rules 0 symbols = .ok table.instruments := by
  unfold loadInstruments requireOk
  constructor
  · intro h
    obtain ⟨url, hurl, h⟩ := except_bind_eq_ok.mp h
    obtain ⟨⟨response, body⟩, hgot, h⟩ := except_bind_eq_ok.mp h
    obtain ⟨_, hstatus, h⟩ := except_bind_eq_ok.mp h
    obtain ⟨rules, hrules, h⟩ := except_bind_eq_ok.mp h
    obtain ⟨instruments, hload, h⟩ := except_bind_eq_ok.mp h
    obtain ⟨rfl, -⟩ := new_eq_ok.mp (mapError_eq_ok.mp h)
    have hok : response.status = 200 := by
      split_ifs at hstatus with hok
      exact hok
    exact ⟨rules, ⟨url, response, body, mapError_eq_ok.mp hurl, mapError_eq_ok.mp hgot, hok,
      mapError_eq_ok.mp hrules⟩, hload⟩
  · rintro ⟨rules, ⟨url, response, body, hurl, hgot, hok, hrules⟩, hload⟩
    have hnew : InstrumentTable.new table.instruments = .ok table := new_eq_ok.mpr ⟨rfl, table.valid⟩
    refine except_bind_eq_ok.mpr ⟨url, mapError_eq_ok.mpr hurl, ?_⟩
    refine except_bind_eq_ok.mpr ⟨(response, body), mapError_eq_ok.mpr hgot, ?_⟩
    refine except_bind_eq_ok.mpr ⟨response, if_pos hok, ?_⟩
    refine except_bind_eq_ok.mpr ⟨rules, mapError_eq_ok.mpr hrules, ?_⟩
    exact except_bind_eq_ok.mpr ⟨_, hload, mapError_eq_ok.mpr hnew⟩

/-- A table is loaded exactly when the server answers with rules in which every symbol is
listed and trading, no symbol is given twice, and there are no more symbols than IDs. It
then has one instrument for every symbol, in the order given, each with the first rules
listed for it, and found by its symbol as well as by its place. -/
theorem instruments_are_loaded (restBase : Bytes) (symbols : List Symbol)
    (got : Url → Except NetError (Response × Bytes)) :
    ((∃ table, loadInstruments restBase symbols got = .ok table) ↔
      ∃ rules, Answered restBase symbols got rules ∧ symbols.Nodup ∧ symbols.length ≤ 2 ^ 32 ∧
        ∀ s ∈ symbols, Trades rules s) ∧
    ∀ table, loadInstruments restBase symbols got = .ok table → ∃ rules,
      Answered restBase symbols got rules ∧ table.instruments.length = symbols.length ∧
      ∀ n symbol, symbols[n]? = some symbol → ∃ rule, rulesOf rules symbol = some rule ∧
        table.get (.ofIndex n) = some (rule.instrument n) ∧
        table.find .binance symbol.text = some (rule.instrument n) := by
  refine ⟨⟨?_, ?_⟩, ?_⟩
  · rintro ⟨table, h⟩
    obtain ⟨rules, hanswered, hload⟩ := loadInstruments_eq_ok.mp h
    exact ⟨rules, hanswered, (checkInstruments_loaded hload).mp table.valid, trades_of_loadLoop hload⟩
  · rintro ⟨rules, hanswered, hnodup, hfits, htrades⟩
    have hzero : 0 + symbols.length ≤ 2 ^ 32 := by omega
    obtain ⟨instruments, hload⟩ := loadLoop_trades hzero htrades
    exact ⟨⟨instruments, (checkInstruments_loaded hload).mpr hnodup⟩,
      loadInstruments_eq_ok.mpr ⟨rules, hanswered, hload⟩⟩
  · intro table h
    obtain ⟨rules, hanswered, hload⟩ := loadInstruments_eq_ok.mp h
    obtain ⟨hlength, hall⟩ := loadLoop_eq_ok.mp hload
    refine ⟨rules, hanswered, hlength, fun n symbol hsymbol => ?_⟩
    obtain ⟨instrument, hget, hloads⟩ := hall n symbol hsymbol
    rw [Nat.zero_add] at hloads
    have hfind := InstrumentTable.find_of_mem (List.mem_of_getElem? hget)
    rw [hloads.symbol_eq] at hfind
    obtain ⟨hindex, rule, hrule, -, rfl⟩ := hloads
    refine ⟨rule, hrule, ?_, hfind⟩
    rw [InstrumentTable.get, ofIndex_index hindex]
    exact hget

theorem sample_instruments_are_loaded :
    ∃ table, loadInstruments (ascii "https://localhost/") [.btcUsdt]
      (fun _ => .ok (⟨200, none, none⟩, infoJson [btcContent])) = .ok table := by
  obtain ⟨hplain, hrules, -⟩ := btcContent_rules
  have hinfo : decodeExchangeInfo (infoJson [btcContent]) = .ok [btcRules] :=
    (decodeExchangeInfo_complete (infoText_json (by simp [hplain]))).trans
      (addSymbols_ok.mpr ⟨[btcRules], .cons (symbolRules_ok.mp hrules) .nil, rfl⟩)
  refine (instruments_are_loaded _ _ _).1.mpr
    ⟨_, ⟨⟨.https, ascii "localhost", 443, exchangeInfoTarget [.btcUsdt]⟩, _, _, by decide +kernel, rfl,
      rfl, hinfo⟩, by decide, by decide, fun s hs => ?_⟩
  obtain rfl : s = .btcUsdt := List.mem_singleton.mp hs
  exact ⟨btcRules, by decide, rfl⟩

end Bowst.Venue
