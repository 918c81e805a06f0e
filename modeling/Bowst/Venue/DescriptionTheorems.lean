/-
Bowst.Venue.DescriptionTheorems — a session description reads back.

  §1 Fields — every field is printable and has no space in it.
  §2 Lines  — each line reads back.
  §3 Text   — the description reads back.
-/
import Bowst.Core.DecimalTheorems
import Bowst.Venue.Replay

namespace Bowst.Venue

open Bowst.Lib Bowst.Core Bowst.L2

/-! ## §1 Fields -/

/-- Text of visible ASCII characters. -/
def Graphic (text : Bytes) : Prop := ∀ byte ∈ text, isAsciiGraphic byte = true

instance (text : Bytes) : Decidable (Graphic text) :=
  inferInstanceAs (Decidable (∀ byte ∈ text, isAsciiGraphic byte = true))

theorem isAsciiGraphic_iff {byte : UInt8} :
    isAsciiGraphic byte = true ↔ 33 ≤ byte.toNat ∧ byte.toNat ≤ 126 := by
  rw [isAsciiGraphic, decide_eq_true_iff, UInt8.le_iff_toNat_le, UInt8.le_iff_toNat_le]
  exact Iff.rfl

theorem Graphic.append {xs ys : Bytes} (hxs : Graphic xs) (hys : Graphic ys) :
    Graphic (xs ++ ys) := fun byte hmem => (List.mem_append.mp hmem).elim (hxs byte) (hys byte)

theorem graphic_of_digits {text : Bytes} (h : AllDigits text) : Graphic text := by
  intro byte hmem
  have hdigit := isDigit_iff byte |>.mp (h byte hmem)
  exact isAsciiGraphic_iff.mpr (by omega)

theorem graphic_natText (n : Nat) : Graphic (natText n) := graphic_of_digits (natText_spec n).2.1

theorem graphic_symbol (symbol : Symbol) : Graphic symbol.text := by
  have hvalid := symbol.valid
  simp only [validSymbol, Bool.and_eq_true, List.all_eq_true] at hvalid
  exact hvalid.2

theorem graphic_plainText (negative : Bool) {int frac : Bytes} (hint : AllDigits int)
    (hfrac : AllDigits frac) : Graphic (plainText negative int frac) := by
  refine .append (.append ?_ (graphic_of_digits hint)) ?_
  · cases negative
    · exact nofun
    · intro byte hmem
      rw [List.mem_singleton.mp hmem]
      rfl
  · split
    · exact nofun
    · intro byte hmem
      rcases List.mem_cons.mp hmem with hpoint | hmem
      · rw [hpoint]
        rfl
      · exact graphic_of_digits hfrac byte hmem

theorem graphic_dec (d : Dec) : Graphic d.text := by
  obtain ⟨int, frac, htext, _, hint, hfrac, _⟩ := d.text_eq
  rw [htext]
  exact graphic_plainText _ hint hfrac

/-- A space is not visible. -/
theorem Graphic.not_mem_space {text : Bytes} (h : Graphic text) : (32 : UInt8) ∉ text :=
  fun hmem => absurd (h 32 hmem) (by decide)

/-! ## §2 Lines -/

/-- Text of ASCII characters and spaces, without control characters. -/
def Printable (text : Bytes) : Prop := ∀ byte ∈ text, 32 ≤ byte.toNat ∧ byte.toNat ≤ 126

instance (text : Bytes) : Decidable (Printable text) :=
  inferInstanceAs (Decidable (∀ byte ∈ text, 32 ≤ byte.toNat ∧ byte.toNat ≤ 126))

theorem printable_spaced : ∀ {fields : List Bytes}, (∀ field ∈ fields, Graphic field) →
    Printable (spaced fields) := by
  intro fields
  induction fields with
  | nil => intro _ byte hmem; cases hmem
  | cons field fields ih =>
      intro h byte hmem
      have hrest := ih fun other hother => h other (List.mem_cons_of_mem _ hother)
      have hfield := h field (List.mem_cons_self ..)
      have hsplit : byte ∈ field ∨ byte = 32 ∨ byte ∈ spaced fields := by
        cases fields with
        | nil => exact .inl (by simpa [spaced] using hmem)
        | cons next fields =>
            rw [spaced, List.intercalate_cons_of_ne_nil (List.cons_ne_nil _ _)] at hmem
            simpa [spaced, or_assoc] using hmem
      rcases hsplit with hmem | rfl | hmem
      · have hgraphic := isAsciiGraphic_iff.mp (hfield byte hmem)
        omega
      · decide
      · exact hrest byte hmem

/-- The fields of a line. -/
theorem splitOn_spaced {fields : List Bytes} (hne : fields ≠ [])
    (h : ∀ field ∈ fields, Graphic field) : (spaced fields).splitOn 32 = fields :=
  List.splitOn_intercalate 32 (fun field hmem => (h field hmem).not_mem_space) hne

theorem graphic_sizing (sizing : BookSizing) :
    ∀ field ∈ [ascii "sizing", natText sizing.sync.levelsPerSide,
      natText sizing.sync.bufferedMessages, natText sizing.sync.bufferedUpdates,
      natText sizing.maxLevelsPerMessage, natText sizing.snapshotLimit], Graphic field := by
  have hname : Graphic (ascii "sizing") := by decide +kernel
  simp only [List.forall_mem_cons, List.not_mem_nil, false_implies, implies_true, and_true]
  exact ⟨hname, graphic_natText _, graphic_natText _, graphic_natText _, graphic_natText _,
    graphic_natText _⟩

theorem graphic_instrument (i : Instrument) :
    ∀ field ∈ [ascii "instrument", natText i.id.index, i.symbol.text, i.tick.text, i.lot.text,
      i.minNotional.text], Graphic field := by
  have hname : Graphic (ascii "instrument") := by decide +kernel
  simp only [List.forall_mem_cons, List.not_mem_nil, false_implies, implies_true, and_true]
  exact ⟨hname, graphic_natText _, graphic_symbol _, graphic_dec _, graphic_dec _, graphic_dec _⟩

/-- Sizes that are of their types. -/
structure BookSizing.Fits (sizing : BookSizing) : Prop where
  levels : sizing.sync.levelsPerSide ≤ u64Max
  messages : sizing.sync.bufferedMessages ≤ u64Max
  updates : sizing.sync.bufferedUpdates ≤ u64Max
  perMessage : sizing.maxLevelsPerMessage ≤ u64Max
  limit : sizing.snapshotLimit ≤ 2 ^ 32 - 1

/-- A decimal that is read as it was written. -/
def ReadsBack (d : Dec) : Prop := d.scale ≤ maxParseScale ∧ d.mantissa.val ≠ -2 ^ 127

theorem parseLine_sizing {sizing : BookSizing} (h : sizing.Fits) (before : Option BookSizing)
    (instruments : List Instrument) :
    parseLine before instruments (sizingLine sizing) = some (some sizing, instruments) := by
  have hfields : parseSizing (natText sizing.sync.levelsPerSide)
      (natText sizing.sync.bufferedMessages) (natText sizing.sync.bufferedUpdates)
      (natText sizing.maxLevelsPerMessage) (natText sizing.snapshotLimit) = some sizing := by
    simp only [parseSizing, parseUsize, parseU32, parseUnsigned_natText h.levels,
      parseUnsigned_natText h.messages, parseUnsigned_natText h.updates,
      parseUnsigned_natText h.perMessage, parseUnsigned_natText h.limit]
    rfl
  rw [parseLine, sizingLine, splitOn_spaced (List.cons_ne_nil _ _) (graphic_sizing sizing)]
  simp only [if_true, hfields]
  rfl

theorem Symbol.new_text (symbol : Symbol) : Symbol.new symbol.text = some symbol :=
  dif_pos symbol.valid

theorem parseLine_instrument {i : Instrument} (hvenue : i.venue = .binance)
    (hminimum : ReadsBack i.minNotional) (sizing : Option BookSizing)
    (instruments : List Instrument) :
    parseLine sizing instruments (instrumentLine i) = some (sizing, instruments ++ [i]) := by
  have hid : parseU32 (natText i.id.index) = some i.id.index :=
    parseUnsigned_natText (Nat.le_pred_of_lt i.id.value.toNat_lt)
  have hfields : parseInstrument (natText i.id.index) i.symbol.text i.tick.text i.lot.text
      i.minNotional.text = some i := by
    obtain ⟨id, venue, symbol, tick, lot, minNotional⟩ := i
    subst hvenue
    simp only [parseInstrument, hid, Symbol.new_text, Increment.parse_text,
      Dec.parseBytes_text hminimum.1 hminimum.2, Except.toOption]
    simp [InstrumentId.index]
  have hname : ascii "instrument" ≠ ascii "sizing" := by decide +kernel
  rw [parseLine, instrumentLine, splitOn_spaced (List.cons_ne_nil _ _) (graphic_instrument i)]
  simp only [if_neg hname, if_true, hfields]
  rfl

/-! ## §3 Text -/

theorem parseLines_instruments (sizing : Option BookSizing) : ∀ (rest before : List Instrument),
    (∀ i ∈ rest, i.venue = .binance ∧ ReadsBack i.minNotional) →
    parseLines sizing before (rest.map instrumentLine) = .ok (sizing, before ++ rest) := by
  intro rest
  induction rest with
  | nil => intro before _; rw [List.append_nil]; rfl
  | cons i rest ih =>
      intro before h
      obtain ⟨hvenue, hminimum⟩ := h i (List.mem_cons_self ..)
      rw [List.map_cons, parseLines, parseLine_instrument hvenue hminimum]
      dsimp only
      rw [ih _ fun other hother => h other (List.mem_cons_of_mem _ hother), List.append_assoc]
      rfl

theorem InstrumentTable.new_instruments (table : InstrumentTable) :
    InstrumentTable.new table.instruments = .ok table := by
  unfold InstrumentTable.new
  split
  · rfl
  · rename_i err herr
    rw [table.valid] at herr
    cases herr

/-- The lines of a description. -/
def descriptionLines (sizing : BookSizing) (instruments : InstrumentTable) : List Bytes :=
  headerLine :: sizingLine sizing :: instruments.instruments.map instrumentLine

theorem printable_descriptionLines (sizing : BookSizing) (instruments : InstrumentTable) :
    ∀ line ∈ descriptionLines sizing instruments, Printable line := by
  intro line hmem
  rcases List.mem_cons.mp hmem with rfl | hmem
  · decide +kernel
  · rcases List.mem_cons.mp hmem with rfl | hmem
    · exact printable_spaced (graphic_sizing sizing)
    · obtain ⟨i, _, rfl⟩ := List.mem_map.mp hmem
      exact printable_spaced (graphic_instrument i)

theorem lines_describe (sizing : BookSizing) (instruments : InstrumentTable) :
    lines (describe sizing instruments) = descriptionLines sizing instruments := by
  have hprintable := printable_descriptionLines sizing instruments
  refine lines_unlines (fun line hline hmem => ?_) fun line hline hlast => ?_
  · exact absurd (hprintable line hline 10 hmem) (by decide)
  · exact absurd (hprintable line hline 13 (List.mem_of_getLast? hlast)) (by decide)

/-- A description is ASCII. -/
theorem validUtf8_describe (sizing : BookSizing) (instruments : InstrumentTable) :
    validUtf8 (describe sizing instruments) = true := by
  refine validUtf8_of_ascii fun byte hmem => ?_
  obtain ⟨line, hline, hmem⟩ := List.mem_flatMap.mp hmem
  rcases List.mem_append.mp hmem with hmem | hmem
  · have hbyte := printable_descriptionLines sizing instruments line hline byte hmem
    exact UInt8.lt_iff_toNat_lt.mpr (show byte.toNat < 128 by omega)
  · rw [List.mem_singleton.mp hmem]
    decide

/-- What a session wrote about itself is read back. -/
theorem parseDescription_describe {sizing : BookSizing} {instruments : InstrumentTable}
    (hsizing : sizing.Fits)
    (h : ∀ i ∈ instruments.instruments, i.venue = .binance ∧ ReadsBack i.minNotional) :
    parseDescription (describe sizing instruments) = .ok (sizing, instruments) := by
  have hparsed : parseLines none [] (sizingLine sizing :: instruments.instruments.map instrumentLine) =
      .ok (some sizing, instruments.instruments) := by
    rw [parseLines, parseLine_sizing hsizing]
    exact parseLines_instruments (some sizing) instruments.instruments [] h
  rw [parseDescription, lines_describe, descriptionLines, List.head?_cons, List.tail_cons, hparsed]
  simp only [ne_eq, not_true_eq_false, if_false, bind, Except.bind,
    InstrumentTable.new_instruments]

/-- **The session description round-trips.** For every sizing, and every instrument
table of the venue whose minimum notionals were parsed from text, the text that
`describe` writes is read back as the same sizing and the same instruments. -/
theorem description_round_trips {sizing : BookSizing} {instruments : InstrumentTable}
    (hsizing : sizing.Fits) (hvenue : ∀ i ∈ instruments.instruments, i.venue = .binance)
    (hminimum : ∀ i ∈ instruments.instruments, ∃ text, Dec.parseBytes text = .ok i.minNotional) :
    parseDescription (describe sizing instruments) = .ok (sizing, instruments) := by
  refine parseDescription_describe hsizing fun i hi => ⟨hvenue i hi, ?_⟩
  obtain ⟨text, htext⟩ := hminimum i hi
  obtain ⟨hplaces, hlo⟩ := Dec.parseBytes_fits htext
  exact ⟨hplaces, by omega⟩

/-- One instrument with fractional rules. -/
def describedTable : InstrumentTable where
  instruments := [{
    id := ⟨0⟩
    venue := .binance
    symbol := .btcUsdt
    tick := .decimals 2
    lot := .decimals 5
    minNotional := ⟨⟨50, by decide, by decide⟩, 1, by decide⟩ }]
  valid := by decide +kernel

theorem description_round_trips_fractional :
    parseDescription (describe ⟨⟨1000, 64, 4096⟩, 5000, 1000⟩ describedTable) =
      .ok (⟨⟨1000, 64, 4096⟩, 5000, 1000⟩, describedTable) := by
  have hsizing : (⟨⟨1000, 64, 4096⟩, 5000, 1000⟩ : BookSizing).Fits := by
    constructor <;> decide
  refine description_round_trips hsizing (by decide) fun i hi => ⟨ascii "5.0", ?_⟩
  obtain rfl := List.mem_singleton.mp hi
  decide +kernel

end Bowst.Venue
