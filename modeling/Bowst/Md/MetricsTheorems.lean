/-
Bowst.Md.MetricsTheorems — what a scrape reads.

  §1 Families — the rendered text is a list of metric families.
  §2 Series   — no family is declared twice, and no series is written twice.
  §3 Values   — what a reader finds under the name of a series.
-/
import Bowst.Md.Metrics
import Bowst.Telemetry.ExpositionTheorems
import Bowst.Venue.SessionTheorems

namespace Bowst.Md

open Bowst.Core Bowst.Journal Bowst.Telemetry Bowst.Venue

/-! ## §1 Families -/

/-- One sample of a family. What stands behind the name is not empty for `_sum` and `_count`
of a summary. -/
structure Sample where
  rest : Text
  labels : List (Text × Text)
  value : Value
  deriving DecidableEq, Repr

/-- A metric, with all its samples. -/
structure Family where
  name : Text
  kind : MetricType
  help : Text
  samples : List Sample
  deriving DecidableEq, Repr

/-- What names a sample: no two may have it in common. -/
abbrev Series := Text × List (Text × Text)

namespace Family

/-- The calls that write a family. -/
def calls (f : Family) : List Call :=
  .family f.name f.kind f.help ::
    f.samples.map fun s => .sample (f.name ++ s.rest) s.labels s.value

def series (f : Family) : List Series := f.samples.map fun s => (f.name ++ s.rest, s.labels)

/-- A family without its values. -/
def outline (f : Family) : Text × List Series := (f.name, f.series)

end Family

/-- The names of a family, and its label names, are names of the format. -/
def acceptedOutline (outline : Text × List Series) : Bool :=
  metricName outline.1 &&
    outline.2.all fun s => metricName s.1 && s.2.all fun label => freeLabelName label.1

theorem calls_accepted {f : Family} (h : acceptedOutline f.outline = true) :
    ∀ call ∈ f.calls, call.accepted = true := by
  obtain ⟨hname, hseries⟩ := Bool.and_eq_true_iff.mp h
  intro call hcall
  rcases List.mem_cons.mp hcall with rfl | hcall
  · exact hname
  · obtain ⟨s, hs, rfl⟩ := List.mem_map.mp hcall
    exact List.all_eq_true.mp hseries _ (List.mem_map.mpr ⟨s, hs, rfl⟩)

def metric (name : String) (kind : MetricType) (help : String) (samples : List Sample) : Family :=
  ⟨name.toList, kind, help.toList, samples⟩

/-- A metric with one sample. -/
def single (name : String) (kind : MetricType) (help : String) (labels : List (Text × Text))
    (value : Value) : Family :=
  metric name kind help [⟨[], labels, value⟩]

/-- A summary, with the samples of its quantiles. -/
def summaryFamily (name help : String) (labels : List (Text × Text))
    (window total : LatencySummary) : Family :=
  metric name .summary help
    [⟨[], labels ++ [("quantile".toList, "0.5".toList)], .nanos window.p50⟩,
      ⟨[], labels ++ [("quantile".toList, "0.9".toList)], .nanos window.p90⟩,
      ⟨[], labels ++ [("quantile".toList, "0.99".toList)], .nanos window.p99⟩,
      ⟨[], labels ++ [("quantile".toList, "0.999".toList)], .nanos window.p999⟩,
      ⟨"_sum".toList, labels, .nanos total.sum⟩,
      ⟨"_count".toList, labels, .int total.count⟩]

section Families

variable (state : MetricsState) (instruments : InstrumentTable) (live : InstrumentId → Bool)

def processFamilies : List Family :=
  [single "bowst_build_info" .gauge "Always 1; labels identify the build."
      [("version".toList, version)] (.int 1),
    single "bowst_start_time_seconds" .gauge "Unix time the process started." []
      (.nanos state.started.nanos.toNat)]

/-- The sample of an instrument. -/
def liveSample (instrument : Instrument) : Sample :=
  ⟨[], [venueLabel, ("symbol".toList, symbolText instrument.symbol)], flag (live instrument.id)⟩

def liveFamily : Family :=
  metric "bowst_md_instrument_live" .gauge
    "1 while the instrument's book is live and may be used; 0 while it is down."
    (instruments.instruments.map (liveSample live))

def connectedFamily : Family :=
  single "bowst_md_connected" .gauge "1 while the market-data WebSocket is connected."
    [venueLabel] (flag state.connected)

def counterFamilies (stats : MdStats) : List Family :=
  (counters stats).map fun (name, help, value) => single name .counter help [venueLabel] (.int value)

def verificationsFamily (stats : MdStats) : Family :=
  metric "bowst_md_verifications_total" .counter
    "Book verifications against fresh snapshots, by result."
    ((verifications stats).map fun (result, value) =>
      ⟨[], [venueLabel, ("result".toList, result.toList)], .int value⟩)

def latencyFamilies : List Family :=
  state.report.toList.map fun (report, _) =>
    summaryFamily "bowst_md_apply_latency_seconds"
      ("Time to decode one message and apply it to its book. " ++
        "Quantiles cover the last report interval; sum and count cover the whole run.")
      [venueLabel] report.latency report.latencyTotal

def lastReportFamily : Family :=
  single "bowst_md_last_report_timestamp_seconds" .gauge
    ("Unix time of the latest session report (every 10 s); " ++
      "stops advancing if the market-data thread stalls.")
    [venueLabel] (.nanos (state.report.elim 0 fun (_, time) => time.nanos.toNat))

def sessionFamilies : List Family :=
  let stats := state.report.elim .zero fun (report, _) => report.stats
  counterFamilies stats ++ verificationsFamily stats :: (latencyFamilies state ++
    [lastReportFamily state])

def healthFamily (health : JournalHealth) : Family :=
  metric "bowst_journal_state" .gauge
    ("1 for the journal's current state: ok, degraded (records dropped) or failed " ++
      "(not persisting).")
    (["ok", "degraded", "failed"].map fun name =>
      ⟨[], [("state".toList, name.toList)], flag (name = healthName health)⟩)

def journalFamilies : List Family :=
  state.journal.toList.flatMap fun health =>
    [healthFamily health,
      single "bowst_journal_dropped_records_total" .counter
        "Records the journal could not accept." [] (.int state.journalDropped)]

/-- The families that every instrument shares. -/
def commonFamilies : List Family :=
  processFamilies state ++ connectedFamily state :: (sessionFamilies state ++ journalFamilies state)

/-- The families of a scrape, in the order in which they are rendered. -/
def families : List Family :=
  processFamilies state ++ connectedFamily state :: liveFamily instruments live ::
    (sessionFamilies state ++ journalFamilies state)

/-- The calls that write families. -/
def callsOf (families : List Family) : List Call := families.flatMap Family.calls

theorem foldl_metric (e : Exposition) (name : String) (kind : MetricType) (help : String)
    (samples : List Sample) :
    (metric name kind help samples).calls.foldl Exposition.call e =
      samples.foldl (fun e s => e.sample (name.toList ++ s.rest) s.labels s.value)
        (e.family name.toList kind help.toList) := by
  rw [Family.calls, List.foldl_cons, List.foldl_map]
  rfl

theorem foldl_single (e : Exposition) (name : String) (kind : MetricType) (help : String)
    (labels : List (Text × Text)) (value : Value) :
    (single name kind help labels value).calls.foldl Exposition.call e =
      (e.family name.toList kind help.toList).sample name.toList labels value := by
  rw [single, foldl_metric, List.foldl_cons, List.foldl_nil, List.append_nil]

theorem foldl_summaryFamily (e : Exposition) (name help : String) (labels : List (Text × Text))
    (window total : LatencySummary) :
    (summaryFamily name help labels window total).calls.foldl Exposition.call e =
      (e.family name.toList .summary help.toList).summary name.toList labels window total := by
  rw [summaryFamily, foldl_metric]
  simp only [List.foldl_cons, List.foldl_nil, List.append_nil, Exposition.summary]

theorem callsOf_cons (f : Family) (fs : List Family) :
    callsOf (f :: fs) = f.calls ++ callsOf fs := List.flatMap_cons

theorem callsOf_append (fs fs' : List Family) : callsOf (fs ++ fs') = callsOf fs ++ callsOf fs' :=
  List.flatMap_append

theorem callsOf_nil : callsOf [] = [] := rfl

theorem process_eq (e : Exposition) :
    process e state = (callsOf (processFamilies state)).foldl Exposition.call e := by
  simp only [processFamilies, callsOf_cons, callsOf_nil, List.foldl_append, List.foldl_nil,
    foldl_single, process]

theorem connection_eq (e : Exposition) :
    connection e state instruments live =
      (callsOf [connectedFamily state, liveFamily instruments live]).foldl Exposition.call e := by
  simp only [connectedFamily, callsOf_cons, callsOf_nil, List.foldl_append, foldl_single,
    foldl_metric, liveFamily, List.foldl_map, liveSample, List.append_nil, connection]

theorem session_eq (e : Exposition) :
    session e state = (callsOf (sessionFamilies state)).foldl Exposition.call e := by
  simp only [sessionFamilies, counterFamilies, counters, verificationsFamily, verifications,
    lastReportFamily, latencyFamilies, List.map_cons, List.map_nil, List.cons_append,
    List.nil_append, callsOf_append, callsOf_cons, callsOf_nil, List.foldl_append, List.foldl_nil,
    List.foldl_cons, foldl_single, foldl_metric, List.append_nil, session]
  cases state.report with
  | none => simp only [Option.toList_none, List.map_nil, callsOf_nil, List.foldl_nil]
  | some report =>
      simp only [Option.toList_some, List.map_cons, List.map_nil, callsOf_cons, callsOf_nil,
        List.append_nil, foldl_summaryFamily]

theorem journal_eq (e : Exposition) :
    journal e state = (callsOf (journalFamilies state)).foldl Exposition.call e := by
  cases hjournal : state.journal with
  | none =>
      simp only [journal, journalFamilies, hjournal, Option.toList_none, List.flatMap_nil,
        callsOf_nil, List.foldl_nil]
  | some health =>
      simp only [journal, journalFamilies, hjournal, Option.toList_some, List.flatMap_cons,
        List.flatMap_nil, List.append_nil, callsOf_cons, callsOf_nil, List.foldl_append,
        foldl_single, foldl_metric, healthFamily, List.map_cons, List.map_nil, List.foldl_cons,
        List.foldl_nil]

theorem rendered_eq :
    rendered state instruments live = Exposition.run (callsOf (families state instruments live)) := by
  rw [rendered, process_eq, connection_eq, session_eq, journal_eq, Exposition.run]
  simp only [families, callsOf_append, callsOf_cons, callsOf_nil, List.foldl_append,
    List.foldl_nil]

end Families

/-! ## §2 Series -/

/-- The series that families write. -/
def seriesOf (families : List Family) : List Series := families.flatMap Family.series

/-- A state with the same families, and no values. -/
def MetricsState.shape (state : MetricsState) : MetricsState where
  started := ⟨0⟩
  connected := false
  report := state.report.map fun _ =>
    (⟨0, .zero, ⟨0, 0, 0, 0, 0, 0, 0, 0⟩, ⟨0, 0, 0, 0, 0, 0, 0, 0⟩⟩, ⟨0⟩)
  journal := state.journal.map fun _ => .ok
  journalDropped := 0

theorem outline_metric (name : String) (kind : MetricType) (help : String) (samples : List Sample) :
    (metric name kind help samples).outline =
      (name.toList, samples.map fun s => (name.toList ++ s.rest, s.labels)) := rfl

/-- Values are no part of an outline. -/
theorem outline_shape (state : MetricsState) :
    (commonFamilies state).map Family.outline =
      (commonFamilies state.shape).map Family.outline := by
  simp only [commonFamilies, processFamilies, connectedFamily, sessionFamilies, counterFamilies,
    counters, verificationsFamily, verifications, latencyFamilies, lastReportFamily,
    journalFamilies, healthFamily, summaryFamily, single, List.map_cons, List.map_nil,
    List.cons_append, List.nil_append, List.map_append, outline_metric, MetricsState.shape]
  cases state.report <;> cases state.journal <;>
    simp only [Option.toList_none, Option.toList_some, Option.map_none, Option.map_some,
      List.map_cons, List.map_nil, List.flatMap_cons, List.flatMap_nil, List.append_nil,
      outline_metric]

/-- Outlines of distinct names and series, none of which is of `name`. -/
structure Tidy (name : Text) (outlines : List (Text × List Series)) : Prop where
  accepted : ∀ outline ∈ outlines, acceptedOutline outline = true
  names : (outlines.map Prod.fst).Nodup
  series : (outlines.flatMap Prod.snd).Nodup
  other : ∀ outline ∈ outlines, outline.1 ≠ name ∧ ∀ s ∈ outline.2, s.1 ≠ name

instance (name : Text) (outlines : List (Text × List Series)) : Decidable (Tidy name outlines) :=
  decidable_of_iff
    ((∀ outline ∈ outlines, acceptedOutline outline = true) ∧ (outlines.map Prod.fst).Nodup ∧
      (outlines.flatMap Prod.snd).Nodup ∧
      ∀ outline ∈ outlines, outline.1 ≠ name ∧ ∀ s ∈ outline.2, s.1 ≠ name)
    ⟨fun ⟨accepted, names, series, other⟩ => ⟨accepted, names, series, other⟩,
      fun ⟨accepted, names, series, other⟩ => ⟨accepted, names, series, other⟩⟩

theorem common_tidy (state : MetricsState) :
    Tidy "bowst_md_instrument_live".toList ((commonFamilies state).map Family.outline) := by
  rw [outline_shape]
  unfold MetricsState.shape
  cases state.report <;> cases state.journal <;> simp only [Option.map_none, Option.map_some] <;>
    decide +kernel

/-! ### Instruments -/

theorem charOfByte_injective : Function.Injective fun byte : UInt8 => Char.ofNat byte.toNat := by
  intro a b h
  have hvalid : ∀ byte : UInt8, (Char.ofNat byte.toNat).toNat = byte.toNat := by
    intro byte
    have hlt : byte.toNat < 256 := byte.toNat_lt
    rw [Char.ofNat, dif_pos (.inl (by omega))]
    rfl
  have hnat := congrArg Char.toNat h
  dsimp only at hnat
  rw [hvalid, hvalid] at hnat
  exact UInt8.toNat_inj.mp hnat

theorem symbolText_injective : Function.Injective symbolText := by
  intro a b h
  have htext : a.text = b.text := List.map_injective_iff.mpr charOfByte_injective h
  cases a
  cases b
  simpa using htext

theorem nodup_instruments (instruments : InstrumentTable) : instruments.instruments.Nodup := by
  refine List.Nodup.of_map (fun i : Instrument => i.id.index) ?_
  have hindex : instruments.instruments.map (fun i => i.id.index) =
      List.range instruments.instruments.length := by
    refine List.ext_getElem (by simp) fun n h h' => ?_
    have hid := InstrumentTable.index_of_check _ _ instruments.valid
      (List.getElem?_eq_getElem (by simpa using h))
    simpa using hid
  rw [hindex]
  exact List.nodup_range

section Instruments

variable {instruments : InstrumentTable} (live : InstrumentId → Bool)

/-- Instruments of one venue have series of their own. -/
theorem nodup_liveFamily (hvenue : ∀ i ∈ instruments.instruments, i.venue = .binance) :
    (liveFamily instruments live).series.Nodup := by
  rw [liveFamily, Family.series, metric, List.map_map]
  refine (nodup_instruments instruments).map_on fun i hi j hj h => ?_
  have hsymbol : symbolText i.symbol = symbolText j.symbol := by
    simpa [liveSample] using h
  have hfind := InstrumentTable.find_of_mem hi
  rw [symbolText_injective hsymbol, hvenue i hi, ← hvenue j hj,
    InstrumentTable.find_of_mem hj] at hfind
  exact (Option.some.inj hfind).symm

theorem liveFamily_accepted : acceptedOutline (liveFamily instruments live).outline = true := by
  have hlabels : ([venueLabel, ("symbol".toList, [])].all fun label => freeLabelName label.1) =
      true := by decide +kernel
  have hname : metricName "bowst_md_instrument_live".toList = true := by decide +kernel
  rw [liveFamily, outline_metric, acceptedOutline, Bool.and_eq_true, List.all_map, List.all_map]
  refine ⟨hname, List.all_eq_true.mpr fun i _ => ?_⟩
  simp only [Function.comp, liveSample, List.append_nil, hname, Bool.true_and]
  exact hlabels

/-- The families of a scrape, the one with the instruments first. -/
theorem families_perm (state : MetricsState) :
    (families state instruments live).Perm (liveFamily instruments live :: commonFamilies state) := by
  refine .trans (.append_left _ (.swap ..)) ?_
  exact List.perm_middle

theorem families_accepted (state : MetricsState) :
    ∀ call ∈ callsOf (families state instruments live), call.accepted = true := by
  intro call hcall
  obtain ⟨f, hf, hcall⟩ := List.mem_flatMap.mp hcall
  refine calls_accepted ?_ call hcall
  rcases List.mem_cons.mp ((families_perm live state).mem_iff.mp hf) with rfl | hf
  · exact liveFamily_accepted live
  · exact (common_tidy state).accepted _ (List.mem_map.mpr ⟨f, hf, rfl⟩)

theorem nodup_names (state : MetricsState) :
    ((families state instruments live).map Family.name).Nodup := by
  have htidy := common_tidy state
  refine ((families_perm live state).map Family.name).nodup_iff.mpr ?_
  rw [List.map_cons, List.nodup_cons]
  have hnames := htidy.names
  rw [List.map_map] at hnames
  refine ⟨fun hmem => ?_, hnames⟩
  obtain ⟨f, hf, hname⟩ := List.mem_map.mp hmem
  exact (htidy.other _ (List.mem_map.mpr ⟨f, hf, rfl⟩)).1 hname

theorem nodup_series (state : MetricsState)
    (hvenue : ∀ i ∈ instruments.instruments, i.venue = .binance) :
    (seriesOf (families state instruments live)).Nodup := by
  have htidy := common_tidy state
  refine ((families_perm live state).flatMap_right Family.series).nodup_iff.mpr ?_
  rw [List.flatMap_cons, List.nodup_append']
  have hseries := htidy.series
  rw [List.flatMap_map] at hseries
  refine ⟨nodup_liveFamily live hvenue, hseries, fun s hlive hcommon => ?_⟩
  obtain ⟨f, hf, hs⟩ := List.mem_flatMap.mp hcommon
  refine (htidy.other _ (List.mem_map.mpr ⟨f, hf, rfl⟩)).2 s hs ?_
  obtain ⟨sample, hsample, rfl⟩ := List.mem_map.mp hlive
  obtain ⟨i, -, rfl⟩ := List.mem_map.mp hsample
  rfl

theorem rendered_text (state : MetricsState) :
    render state instruments live =
        joinLines ((callsOf (families state instruments live)).flatMap Call.lines) ∧
      (rendered state instruments live).rejected = 0 := by
  have haccepted : ∀ call ∈ callsOf (families state instruments live), call.accepted = true :=
    families_accepted live state
  obtain ⟨hout, hrejected⟩ :=
    foldl_call (callsOf (families state instruments live)) .new (Nat.zero_le _)
  rw [render, rendered_eq, Exposition.finish, Exposition.run, hout, hrejected,
    List.filter_eq_self.mpr haccepted, List.countP_eq_zero.mpr]
  · exact ⟨rfl, rfl⟩
  · intro call hcall
    rw [haccepted call hcall]
    decide

theorem readText_render (state : MetricsState) :
    readText (render state instruments live) =
      some (callsOf (families state instruments live)) := by
  rw [(rendered_text live state).1]
  exact readText_joinLines (families_accepted live state)

end Instruments

/-- **A scrape is well formed.** Whatever the state, the instruments and their books are: no
name is rejected, the reader of the text format reads the families one after the other, each
declared before its samples, none declared twice, and no two samples are of one series. -/
theorem scrape_is_well_formed (state : MetricsState) {instruments : InstrumentTable}
    (hvenue : ∀ i ∈ instruments.instruments, i.venue = .binance) (live : InstrumentId → Bool) :
    (rendered state instruments live).rejected = 0 ∧
      readText (render state instruments live) =
        some (callsOf (families state instruments live)) ∧
      ((families state instruments live).map Family.name).Nodup ∧
      (seriesOf (families state instruments live)).Nodup :=
  ⟨(rendered_text live state).2, readText_render live state, nodup_names live state,
    nodup_series live state hvenue⟩

theorem sample_scrape_is_well_formed :
    (rendered .default btcTable fun _ => true).rejected = 0 ∧
      readText (render .default btcTable fun _ => true) =
        some (callsOf (families .default btcTable fun _ => true)) ∧
      ((families .default btcTable fun _ => true).map Family.name).Nodup ∧
      (seriesOf (families .default btcTable fun _ => true)).Nodup :=
  scrape_is_well_formed .default (by decide) fun _ => true

/-! ## §3 Values -/

/-- The value of a call that writes a series. -/
def valueAt (series : Series) : Call → Option Value
  | .sample name labels value => if (name, labels) = series then some value else none
  | .family _ _ _ => none

end Bowst.Md
