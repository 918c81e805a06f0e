/-
Bowst.Venue.LayoutTheorems — a depth update decodes the same in any layout.

A message is described by what it says and by how it may be written: the order of
the members, the white space, the members nobody asked for, and the envelope are
left open. The decoder is followed along the members in the order in which they
stand, and what it has collected depends only on which of them it has seen.

  §1 Layouts — the texts of a depth update.
  §2 Values  — integers and decimals are read for what they are.
  §3 Levels  — a level array is read whole, wherever it stands.
  §4 Members — what one member adds to the fields.
  §5 Objects — a payload and an envelope, along their members.
  §6 Updates — the whole message.
-/
import Bowst.Core.RoundingTheorems
import Bowst.Venue.DepthTheorems

namespace Bowst.Venue

open Bowst.Lib Bowst.Core Bowst.L2

/-! ## §1 Layouts -/

def quote (text : Bytes) : Bytes := 34 :: (text ++ [34])

/-- A string that is written without escapes. -/
def Quoted (text t : Bytes) : Prop := t = quote text

/-- A level: its price and its quantity as strings, in an array. -/
def LevelText (pair : Bytes × Bytes) (t : Bytes) : Prop :=
  ∃ body, Listed (PaddedItem Quoted) [pair.1, pair.2] body ∧ t = 91 :: (body ++ [93])

/-- A side: an array of levels. -/
def LevelsText (pairs : List (Bytes × Bytes)) (t : Bytes) : Prop :=
  ∃ body, Listed (PaddedItem LevelText) pairs body ∧ t = 91 :: (body ++ [93])

/-- An object, given the names and the texts of its members in their order. -/
def ObjectText (members : List (Bytes × Bytes)) (t : Bytes) : Prop :=
  ∃ body, Listed (PaddedItem (Member Rfc8259.PlainName fun _ => True)) members body ∧
    t = 123 :: (body ++ [125])

/-- The names that `read_object` knows in a payload. -/
def updateNames : List Bytes := ["e", "E", "s", "U", "u", "b", "a"].map ascii

/-- A member that nobody asked for, in an object at this depth: `skip` accepts its
value. -/
structure Extra (depth : Nat) (x : Bytes × Bytes) : Prop where
  name : x.1 ∉ ascii "data" :: updateNames
  value : ∃ r, (⟨x.2, 0, depth, false⟩ : Reader).skip = .ok r ∧ r.rest = []

/-- What a depth update says, with its levels as they are written. -/
structure DepthContent where
  instrument : Instrument
  millis : Nat
  range : SeqRange
  texts : Side → List (Bytes × Bytes)

namespace DepthContent

variable (c : DepthContent)

/-- The members of a payload, given the texts of its sides. -/
def members (side : Side → Bytes) : List (Bytes × Bytes) :=
  [(ascii "e", quote (ascii "depthUpdate")), (ascii "E", natText c.millis),
    (ascii "s", quote c.instrument.symbol.text), (ascii "U", natText c.range.first),
    (ascii "u", natText c.range.last), (ascii "b", side .buy), (ascii "a", side .sell)]

/-- A payload whose members are at this depth: each of its own members once, in any
order, and extra ones among them. -/
def Payload (depth : Nat) (t : Bytes) : Prop :=
  ∃ side extras members, (∀ s, LevelsText (c.texts s) (side s)) ∧ (∀ x ∈ extras, Extra depth x) ∧
    members.Perm (c.members side ++ extras) ∧ ObjectText members t

/-- A message: a payload, or an envelope with a payload for its data. -/
def Message : Bytes → Prop :=
  Padded fun t => c.Payload 1 t ∨ ∃ payload extras members, c.Payload 2 payload ∧
    (∀ x ∈ extras, Extra 1 x) ∧ members.Perm ((ascii "data", payload) :: extras) ∧
    ObjectText members t

end DepthContent

/-! The layout without white space, with the members in a given order. -/

def levelJson (pair : Bytes × Bytes) : Bytes :=
  91 :: ([44].intercalate ([pair.1, pair.2].map quote) ++ [93])

def levelsJson (pairs : List (Bytes × Bytes)) : Bytes :=
  91 :: ([44].intercalate (pairs.map levelJson) ++ [93])

def memberJson (x : Bytes × Bytes) : Bytes := 34 :: (x.1 ++ 34 :: 58 :: x.2)

def objectJson (members : List (Bytes × Bytes)) : Bytes :=
  123 :: ([44].intercalate (members.map memberJson) ++ [125])

theorem levelsText_json (pairs : List (Bytes × Bytes)) : LevelsText pairs (levelsJson pairs) := by
  refine ⟨_, listed_intercalate fun pair _ => ?_, rfl⟩
  exact ⟨_, listed_intercalate fun text _ => rfl, rfl⟩

theorem objectText_json {members : List (Bytes × Bytes)}
    (h : ∀ x ∈ members, Rfc8259.PlainName x.1) : ObjectText members (objectJson members) := by
  refine ⟨_, listed_intercalate fun x hx => ?_, rfl⟩
  exact ⟨h x hx, trivial, [], [], white_nil, white_nil, by simp [memberJson]⟩

/-- Visible ASCII without quotes and backslashes is a plain name. -/
theorem plainName_of_visible {name : Bytes} (h : ∀ b ∈ name, 33 ≤ b ∧ b ≤ 126) (hquote : 34 ∉ name)
    (hslash : 92 ∉ name) : Rfc8259.PlainName name := by
  refine ⟨fun b hb => ⟨?_, ?_, ?_⟩, validUtf8_of_ascii fun b hb => ?_⟩
  · exact UInt8.le_trans (by decide) (h b hb).1
  · intro heq
    exact hquote (heq ▸ hb)
  · intro heq
    exact hslash (heq ▸ hb)
  · exact UInt8.lt_of_le_of_lt (h b hb).2 (by decide)

/-- A payload with its members in any order. -/
theorem payload_json {c : DepthContent} {depth : Nat} {members : List (Bytes × Bytes)}
    (h : members.Perm (c.members fun side => levelsJson (c.texts side))) :
    c.Payload depth (objectJson members) := by
  refine ⟨_, [], members, fun side => levelsText_json _, by simp, by simpa using h,
    objectText_json fun x hx => ?_⟩
  have hx := h.mem_iff.mp hx
  simp only [DepthContent.members, List.mem_cons, List.not_mem_nil, or_false] at hx
  obtain rfl | rfl | rfl | rfl | rfl | rfl | rfl := hx <;>
    exact plainName_of_visible (by simp [ascii]) (by simp [ascii]) (by simp [ascii])

/-- So every content has a message. -/
theorem message_json (c : DepthContent) :
    c.Message (objectJson (c.members fun side => levelsJson (c.texts side))) :=
  ⟨[], _, [], white_nil, .inl (payload_json (.refl _)), white_nil, by simp⟩

/-- A plain decimal, of no more places and digits than the parser has room for, that
is a whole number of increments. -/
structure Multiple (q : Increment) (text : Bytes) (units : Int) : Prop where
  plain : ∃ negative int frac, PlainDecimal negative int frac ∧ text = plainText negative int frac
  value : decimalValue text = units * q.toRat
  fits : -2 ^ 63 ≤ units ∧ units ≤ 2 ^ 63 - 1

/-- What the texts of a level come to in an instrument's increments. -/
def LevelOf (instrument : Instrument) (pair : Bytes × Bytes) (level : Level) : Prop :=
  Multiple instrument.tick pair.1 level.price ∧ Multiple instrument.lot pair.2 level.qty

/-! ## §2 Values -/

/-- A whole number of increments is read as that number. -/
theorem exact_complete {q : Increment} {text : Bytes} {units : Int} (h : Multiple q text units)
    (field : String) : exact text q field = .ok units := by
  obtain ⟨negative, int, frac, hplain, rfl⟩ := h.plain
  have hfits : (foldDigits 0 (int ++ frac) : Int) ≤ 2 ^ 127 - 1 := by
    have := hplain.fits
    omega
  obtain ⟨d, hparse, hscale, -⟩ := Dec.parseBytes_plain negative hplain.int_ne hplain.int_digits
    hplain.frac_digits hplain.places hfits
  have hvalue : d.toRat = units * q.toRat := by rw [Dec.parseBytes_value hparse, h.value]
  have hunits := Increment.toUnits_of_multiple (by rw [hscale]; exact hplain.places) hvalue h.fits
  have hread : q.parseUnitsBytes (plainText negative int frac) .exact =
      .ok ⟨units, h.fits.1, h.fits.2⟩ := by
    rw [parseUnitsBytes_eq_general, hparse]
    exact hunits
  rw [exact, hread]

theorem readsAs_of_levelOf {instrument : Instrument} {pair : Bytes × Bytes} {level : Level}
    (h : LevelOf instrument pair level) : ReadsAs instrument.tick instrument.lot pair level :=
  ⟨exact_complete h.1 "price", exact_complete h.2 "qty"⟩

/-- The bytes of a plain decimal stand for themselves in a string. -/
theorem Multiple.plainBytes {q : Increment} {text : Bytes} {units : Int} (h : Multiple q text units) :
    ∀ b ∈ text, PlainByte b := by
  obtain ⟨negative, int, frac, hplain, rfl⟩ := h.plain
  have hdigit : ∀ b, DecScan.isDigit b = true → PlainByte b := by
    intro b hb
    simp only [isDigit_iff, PlainByte, UInt8.le_iff_toNat_le, ne_eq, ← UInt8.toNat_inj,
      UInt8.reduceToNat] at hb ⊢
    omega
  intro b hb
  simp only [plainText, List.mem_append] at hb
  rcases hb with (hb | hb) | hb
  · have hminus : b = 45 := by
      split_ifs at hb
      · simpa using hb
      · simp at hb
    rw [hminus]
    exact ⟨by decide, by decide, by decide⟩
  · exact hdigit b (hplain.int_digits b hb)
  · split_ifs at hb
    · simp at hb
    · rcases List.mem_cons.mp hb with rfl | hb
      · exact ⟨by decide, by decide, by decide⟩
      · exact hdigit b (hplain.frac_digits b hb)

/-- The digit loop over digits whose number fits. -/
theorem u64Digits_complete {start : Nat} {back : Bytes} (hback : ∀ b ∈ back.head?, isDigit b = false) :
    ∀ (digits : Bytes) (v : Nat), AllDigits digits → foldDigits v digits < 2 ^ 64 →
      u64Digits start v (digits ++ back) = .ok (foldDigits v digits, digits.length) := by
  intro digits
  induction digits with
  | nil =>
      intro v _ _
      cases back with
      | nil => rfl
      | cons b back =>
          have hb := hback b (by simp)
          simp [u64Digits, hb]
  | cons byte digits ih =>
      intro v hdigits hfits
      have hbyte := hdigits byte (by simp)
      have hval : (byte - 48).toNat = byte.toNat - 48 := by
        rw [isDigit_iff] at hbyte
        exact UInt8.toNat_sub_of_le _ _ (by simpa [UInt8.le_iff_toNat_le] using hbyte.1)
      rw [foldDigits_cons] at hfits ⊢
      have hnext : v * 10 + (byte.toNat - 48) < 2 ^ 64 := by
        refine lt_of_le_of_lt ?_ hfits
        rw [foldDigits_eq digits]
        have := Nat.le_mul_of_pos_right (v * 10 + (byte.toNat - 48))
          (Nat.pow_pos (n := digits.length) (show 0 < 10 by norm_num))
        omega
      have hrest := ih _ (fun b hb => hdigits b (by simp [hb])) hfits
      rw [List.cons_append, u64Digits, if_pos (show isDigit byte = true from hbyte), hval]
      dsimp only
      rw [if_pos hnext, hrest]
      rfl

namespace Reader

/-- An integer is read whole, up to something that could not go on with it. -/
theorem u64_complete {r r' : Reader} {w : Bytes} {n : Nat} (hn : n < 2 ^ 64) (hw : White w)
    (htook : r.Took (w ++ natText n) r') (hdepth : r'.depth = r.depth) (hafter : r'.afterValue = true)
    (hstop : ∀ b ∈ r'.rest.head?, isNumberByte b = false) : r.u64 = .ok (n, r') := by
  obtain ⟨hne, hdigits, hvalue⟩ := natText_spec n
  obtain ⟨first, others, hcons⟩ := List.exists_cons_of_ne_nil hne
  have hrest : r.rest = w ++ (natText n ++ r'.rest) := by rw [htook.rest, List.append_assoc]
  have hskip := skipWhitespace_eq hw hrest (by
    intro b hb
    have hfirst := (isDigit_iff first).mp (hdigits first (by simp [hcons]))
    rw [hcons] at hb
    obtain rfl : first = b := by simpa using hb
    simp only [isWhitespace, Bool.or_eq_false_iff, decide_eq_false_iff_not, ← UInt8.toNat_inj,
      UInt8.reduceToNat]
    omega)
  have hback : ∀ b ∈ r'.rest.head?, isDigit b = false := by
    intro b hb
    have hb' := hstop b hb
    simp only [isNumberByte, Bool.or_eq_false_iff] at hb'
    exact hb'.2
  have hloop : u64Digits (r.pos + w.length) 0 (natText n ++ r'.rest) =
      .ok (foldDigits 0 (natText n), (natText n).length) :=
    u64Digits_complete hback (natText n) 0 hdigits (by rw [hvalue]; exact hn)
  rw [hvalue] at hloop
  have hadvance : ({ r with rest := natText n ++ r'.rest, pos := r.pos + w.length } : Reader).advance
      (natText n).length = { r' with afterValue := r.afterValue } := by
    simp [advance, htook.pos, hdepth, Nat.add_assoc]
  have hlead : ¬ (1 < (natText n).length ∧ (natText n ++ r'.rest).head? = some 48) := by
    by_cases hlong : 1 < (natText n).length
    · have hzero := natText_leading hlong
      rw [hcons] at hzero ⊢
      rw [List.head?_cons] at hzero
      simp [hzero]
    · simp [hlong]
  have hcontinues : (r'.rest.head?.any fun b => b = 46 || b = 101 || b = 69 || b = 45 || b = 43) =
      false := by
    cases hhead : r'.rest.head? with
    | none => rfl
    | some b =>
        have hb := hstop b (by rw [hhead]; rfl)
        simp only [isNumberByte, Bool.or_eq_false_iff] at hb
        simp [hb]
  unfold u64
  simp only [hskip]
  refine except_bind_eq_ok.mpr ⟨_, hloop, ?_⟩
  dsimp only
  rw [hadvance, if_neg]
  · rw [← hafter]
  · simp only [peek, hcontinues, Bool.or_false, Bool.or_eq_true, Bool.and_eq_true, decide_eq_true_eq,
      List.length_eq_zero_iff, not_or]
    exact ⟨hne, fun h => hlead ⟨h.1, of_decide_eq_true h.2⟩⟩

/-! ## §3 Levels -/

/-- An element that is there, from its separator on. -/
theorem nextElement_complete {r r' : Reader} {sep v : Bytes} (hsep : Separator r.afterValue sep)
    (hv : ∀ b ∈ v.head?, isWhitespace b = false ∧ b ≠ 93) (hne : v ≠ []) (htook : r.Took (sep ++ v) r') :
    ∃ m w, r.nextElement = .ok (true, m) ∧ White w ∧ m.Took (w ++ v) r' ∧ m.depth = r.depth ∧
      m.afterValue = r.afterValue := by
  obtain ⟨sep₁, w₁, hsep₁, hw₁, rfl, hnil⟩ := separator_split hsep
  rw [List.append_assoc] at htook
  obtain ⟨m, hm, htook', hmdepth, hmafter⟩ := htook.split r.depth r.afterValue
  refine ⟨m, w₁, (nextMember_more rfl (by decide)).mpr
    ⟨sep₁, hsep₁, hm, hmdepth, hmafter, fun hflag b hb => hv b ?_⟩, hw₁, htook', hmdepth, hmafter⟩
  rw [htook'.rest, hnil hflag] at hb
  obtain ⟨b', rest, rfl⟩ := List.exists_cons_of_ne_nil hne
  simpa using hb

/-- The next string of an array of strings. -/
theorem nextString_complete {r r' : Reader} {text front : Bytes} {texts : List Bytes}
    (htail : Tail Quoted 93 r.afterValue (text :: texts) front) (hplain : ∀ b ∈ text, PlainByte b)
    (htook : r.Took front r') : ∃ r₁ r₂ front', r.nextElement = .ok (true, r₁) ∧
      r₁.strBytes = .ok (text, r₂) ∧ Tail Quoted 93 true texts front' ∧ r₂.Took front' r' ∧
      r₂.depth = r.depth ∧ r₂.afterValue = true := by
  cases htail with
  | @more _ _ _ sep t front' hsep ht htail =>
      subst ht
      rw [← List.append_assoc] at htook
      obtain ⟨r₂, htook₂, hrest, hdepth₂, hafter₂⟩ := htook.split r.depth true
      obtain ⟨r₁, w, hmore, hw, htook₁, hdepth₁, -⟩ := nextElement_complete hsep
        (by simp [quote, isWhitespace]) (by simp [quote]) htook₂
      exact ⟨r₁, r₂, front', hmore, strBytes_eq_ok.mpr
        ⟨hplain, w, hw, htook₁, hdepth₂.trans hdepth₁.symm, hafter₂⟩, htail, hrest, hdepth₂, hafter₂⟩

/-- A container from its opening byte on. -/
theorem enter_complete {α : Type} {Core : α → Bytes → Prop} {as : List α} {body w : Bytes}
    {byte close : UInt8} {r r' : Reader} (expected : String) (hbyte : isWhitespace byte = false)
    (hbody : Listed (PaddedItem Core) as body) (hw : White w) (hroom : r.depth < maxDepth)
    (htook : r.Took (w ++ byte :: (body ++ [close])) r') :
    ∃ r₁ front, r.enter byte expected = .ok r₁ ∧ Tail Core close r₁.afterValue as front ∧
      r₁.Took front r' ∧ r₁.depth = r.depth + 1 ∧ r₁.afterValue = false := by
  have hpieces : w ++ byte :: (body ++ [close]) = (w ++ [byte]) ++ (body ++ [close]) := by simp
  rw [hpieces] at htook
  obtain ⟨r₁, htook₁, hrest, hdepth₁, hafter₁⟩ := htook.split (r.depth + 1) false
  refine ⟨r₁, body ++ [close], (enter_eq_ok hbyte).mpr ⟨hroom, w, hw, htook₁, hdepth₁, hafter₁⟩, ?_,
    hrest, hdepth₁, hafter₁⟩
  rw [hafter₁]
  exact tail_iff_listed.mpr ⟨body, hbody, rfl⟩

/-- The end of an array. -/
theorem nextElement_closed {α : Type} {Core : α → Bytes → Prop} {front : Bytes} {after : Bool}
    {r r' : Reader} (htail : Tail Core 93 after [] front) (htook : r.Took front r')
    (hdepth : r'.depth = r.depth - 1) (hafter : r'.afterValue = true) :
    r.nextElement = .ok (false, r') := by
  cases htail with
  | close hw => exact (nextMember_closed rfl).mpr ⟨_, hw, htook, hdepth, hafter⟩

end Reader

/-- The two texts of a level. -/
theorem readPair_complete {r r' : Reader} {w t : Bytes} {pair : Bytes × Bytes} (ht : LevelText pair t)
    (hplain : (∀ b ∈ pair.1, PlainByte b) ∧ ∀ b ∈ pair.2, PlainByte b) (hw : White w)
    (hroom : r.depth < maxDepth) (htook : r.Took (w ++ t) r') (hdepth : r'.depth = r.depth)
    (hafter : r'.afterValue = true) : readPair r = .ok (pair, r') := by
  obtain ⟨body, hbody, rfl⟩ := ht
  obtain ⟨r₁, front₁, hopen, htail₁, htook₁, hdepth₁, -⟩ :=
    Reader.enter_complete "'['" rfl hbody hw hroom htook
  obtain ⟨r₂, r₃, front₂, hmore₂, hprice, htail₂, htook₂, hdepth₃, hafter₃⟩ :=
    Reader.nextString_complete htail₁ hplain.1 htook₁
  rw [← hafter₃] at htail₂
  obtain ⟨r₄, r₅, front₃, hmore₄, hqty, htail₃, htook₃, hdepth₅, -⟩ :=
    Reader.nextString_complete htail₂ hplain.2 htook₂
  have hclosed := Reader.nextElement_closed htail₃ htook₃ (by omega) hafter
  exact readPair_eq_ok.mpr ⟨r₁, r₂, r₃, r₄, r₅, hopen, hmore₂, hprice, hmore₄, hqty, hclosed⟩

/-- Two texts with increments are a level. -/
theorem readLevel_complete {r r' : Reader} {tick lot : Increment} {pair : Bytes × Bytes} {level : Level}
    (hpair : readPair r = .ok (pair, r')) (hreads : ReadsAs tick lot pair level) :
    readLevel r tick lot = .ok (level, r') := by
  obtain ⟨r₁, r₂, r₃, r₄, r₅, h₁, h₂, h₃, h₄, h₅, h₆⟩ := readPair_eq_ok.mp hpair
  simp [readLevel, h₁, h₂, h₃, h₄, h₅, h₆, hreads.1, hreads.2, fromJson, Except.mapError, bind,
    Except.bind]

section Levels

variable {instrument : Instrument} {limit : Nat}

/-- The loop over levels, with a round for every byte and room for every level. -/
theorem readLevelsLoop_complete {α : Type} (ofLevel : Level → α) {r' : Reader}
    (hafter : r'.afterValue = true) : ∀ {rounds : Nat} {pairs : List (Bytes × Bytes)}
      {levels : List Level} {front : Bytes} {out : List α} {r : Reader},
      Tail LevelText 93 r.afterValue pairs front → List.Forall₂ (LevelOf instrument) pairs levels →
      r.Took front r' → r'.depth = r.depth - 1 → r.depth < maxDepth → r.rest.length < rounds →
      out.length + levels.length ≤ limit →
      readLevelsLoop ofLevel instrument.tick instrument.lot limit rounds out r =
        .ok (out ++ levels.map ofLevel, r') := by
  intro rounds
  induction rounds with
  | zero =>
      intro pairs levels front out r _ _ _ _ _ hrounds _
      omega
  | succ rounds ih =>
      intro pairs levels front out r htail hlevels htook hdepth hroom hrounds hlimit
      cases hlevels with
      | nil =>
          have hclosed := Reader.nextElement_closed htail htook hdepth hafter
          simp [readLevelsLoop, hclosed, fromJson, Except.mapError, bind, Except.bind]
      | @cons pair level pairs levels hlevel hlevels =>
          cases htail with
          | @more _ _ _ sep t front' hsep ht htail =>
              rw [← List.append_assoc] at htook
              obtain ⟨r₂, htook₂, hrest, hdepth₂, hafter₂⟩ := htook.split r.depth true
              obtain ⟨body, hbody, rfl⟩ := ht
              obtain ⟨r₁, w, hmore, hw, htook₁, hdepth₁, -⟩ := Reader.nextElement_complete hsep
                (by simp [isWhitespace]) (by simp) htook₂
              have hpair := readPair_complete ⟨body, hbody, rfl⟩ ⟨hlevel.1.plainBytes, hlevel.2.plainBytes⟩
                hw (by omega) htook₁ (hdepth₂.trans hdepth₁.symm) hafter₂
              have hread := readLevel_complete hpair (readsAs_of_levelOf hlevel)
              have hlen := congrArg List.length htook₂.rest
              simp only [List.length_append, List.length_cons] at hlen hlimit
              rw [← hafter₂] at htail
              have hlast : readLevelsLoop ofLevel instrument.tick instrument.lot limit rounds
                  (out ++ [ofLevel level]) r₂ =
                    .ok (out ++ [ofLevel level] ++ levels.map ofLevel, r') :=
                ih htail hlevels hrest (by omega) (by omega) (by omega)
                  (by simp only [List.length_append, List.length_singleton]; omega)
              rw [readLevelsLoop, fromJson_eq_ok.mpr hmore]
              show (if out.length ≥ limit then _ else _) = _
              rw [if_neg (by omega)]
              show (readLevel r₁ instrument.tick instrument.lot >>= _) = _
              rw [hread]
              show readLevelsLoop ofLevel instrument.tick instrument.lot limit rounds
                (out ++ [ofLevel level]) r₂ = _
              rw [hlast, List.map_cons, List.append_assoc]
              rfl

/-- A level array, wherever it stands: its levels go behind those already there. -/
theorem readSide_complete {r r' : Reader} {w t : Bytes} {pairs : List (Bytes × Bytes)}
    {levels : List Level} (side : Side) {fields : Fields} (ht : LevelsText pairs t)
    (hlevels : List.Forall₂ (LevelOf instrument) pairs levels) (hw : White w)
    (hroom : r.depth + 1 < maxDepth) (htook : r.Took (w ++ t) r') (hdepth : r'.depth = r.depth)
    (hafter : r'.afterValue = true) (hlimit : fields.updates.length + levels.length ≤ limit) :
    readSide limit r side instrument fields = .ok ({ fields with
      updates := fields.updates ++ levels.map fun level => ⟨side, level.price, level.qty⟩ }, r') := by
  obtain ⟨body, hbody, rfl⟩ := ht
  obtain ⟨r₁, front, hopen, htail, htook₁, hdepth₁, -⟩ :=
    Reader.enter_complete "'['" rfl hbody hw (by omega) htook
  have hloop := readLevelsLoop_complete (fun level => (⟨side, level.price, level.qty⟩ : LevelUpdate))
    hafter htail hlevels htook₁ (by omega) (by omega) (Nat.lt_succ_self _) hlimit
  have hread : readUpdatesInto r side instrument.tick instrument.lot limit fields.updates =
      .ok (fields.updates ++ levels.map fun level => ⟨side, level.price, level.qty⟩, r') := by
    rw [readUpdatesInto, Reader.beginArray, fromJson_eq_ok.mpr hopen]
    exact hloop
  rw [readSide, hread]
  rfl

/-- What can be read can be skipped. -/
theorem skip_levels {r r' : Reader} {w t : Bytes} {pairs : List (Bytes × Bytes)} {levels : List Level}
    (ht : LevelsText pairs t) (hlevels : List.Forall₂ (LevelOf instrument) pairs levels) (hw : White w)
    (hroom : r.depth + 1 < maxDepth) (htook : r.Took (w ++ t) r') (hdepth : r'.depth = r.depth)
    (hafter : r'.afterValue = true) : r.skip = .ok r' := by
  have hlimit : Fields.empty.updates.length + levels.length ≤ levels.length := by simp [Fields.empty]
  have hread := readSide_complete .buy ht hlevels hw hroom htook hdepth hafter hlimit
  exact (readSide_levels hread).1

end Levels

/-! ## §4 Members -/

/-- The value of a member in an object at this depth, between the reader behind the
colon and the reader behind the value. -/
structure ValueAt (depth : Nat) (value : Bytes) (m r' : Reader) : Prop where
  took : ∃ w, White w ∧ m.Took (w ++ value) r'
  before : m.depth = depth
  after : r'.depth = depth
  afterValue : r'.afterValue = true
  stop : ∀ b ∈ r'.rest.head?, Reader.isNumberByte b = false

theorem Extra.skip {depth : Nat} {x : Bytes × Bytes} (h : Extra depth x) (hdepth : depth ≤ maxDepth)
    {r r' : Reader} (hvalue : ValueAt depth x.2 r r') : r.skip = .ok r' := by
  obtain ⟨w, hw, htook⟩ := hvalue.took
  have hr := hvalue.before
  obtain ⟨m, hskip, hrest⟩ := h.value
  obtain ⟨w', v, hw', hv, htook', -, -, -⟩ := (Reader.skip_eq_ok (show depth ≤ maxDepth from hdepth)).mp hskip
  have htext : x.2 = w' ++ v := by simpa [hrest] using htook'.rest
  rw [htext, ← List.append_assoc] at htook
  exact (Reader.skip_eq_ok (by omega)).mpr ⟨w ++ w', v, hw.append hw', by rw [hr]; exact hv, htook,
    fun _ => hvalue.stop, hvalue.after.trans hr.symm, hvalue.afterValue⟩

/-- What a message with this content needs to be decoded to these levels. -/
structure Decodable (instruments : InstrumentTable) (limit : Nat) (c : DepthContent)
    (levels : Side → List Level) : Prop where
  find : instruments.find .binance c.instrument.symbol.text = some c.instrument
  symbol : Rfc8259.PlainName c.instrument.symbol.text
  millis : c.millis * 1000000 < 2 ^ 64
  texts : ∀ side, List.Forall₂ (LevelOf c.instrument) (c.texts side) (levels side)
  room : (levels .buy).length + (levels .sell).length ≤ limit

/-- What the fields tell once the member of this name was read. -/
structure Told (c : DepthContent) (fields : Fields) (name : Bytes) : Prop where
  event : name = ascii "e" → fields.eventSeen = true
  time : name = ascii "E" → fields.eventTime = some c.millis
  instrument : name = ascii "s" → fields.instrument = some c.instrument
  first : name = ascii "U" → fields.first = some c.range.first
  last : name = ascii "u" → fields.last = some c.range.last

/-- What the decoder has of one side: nothing, the place where it stands, or its
levels. -/
inductive SideTold (c : DepthContent) (levels : List Level) (side : Side) (seen : List Bytes)
    (fields : Fields) : Prop
  | absent (hseen : ascii (sideName side) ∉ seen) (hdeferred : fields.deferred side = none)
      (hread : fields.sidesRead side = false) (hupdates : sideLevels side fields.updates = [])
  | deferred {w t back : Bytes} (hseen : ascii (sideName side) ∈ seen) (hw : White w)
      (ht : LevelsText (c.texts side) t) (hdeferred : fields.deferred side = some (w ++ (t ++ back)))
      (hread : fields.sidesRead side = false) (hupdates : sideLevels side fields.updates = [])
  | read (hseen : ascii (sideName side) ∈ seen) (hdeferred : fields.deferred side = none)
      (hread : fields.sidesRead side = true) (hupdates : sideLevels side fields.updates = levels)

/-- What the decoder has collected from the members of these names. -/
structure Collected (c : DepthContent) (levels : Side → List Level) (seen : List Bytes)
    (fields : Fields) : Prop where
  told : ∀ name ∈ seen, Told c fields name
  instrument : ∀ i, fields.instrument = some i → i = c.instrument
  sides : ∀ side, SideTold c (levels side) side seen fields

/-- A side has no field of its own. -/
theorem told_side {c : DepthContent} {fields : Fields} (side : Side) :
    Told c fields (ascii (sideName side)) := by
  cases side <;> constructor <;> simp [sideName, ascii]

/-- Nor has a name that nobody asked for. -/
theorem told_extra {c : DepthContent} {fields : Fields} {name : Bytes} (hname : name ∉ updateNames) :
    Told c fields name := by
  simp only [updateNames, List.map_cons, List.map_nil, List.mem_cons, List.not_mem_nil, or_false,
    not_or] at hname
  obtain ⟨he, hE, hs, hU, hu, -, -⟩ := hname
  exact ⟨fun h => absurd h he, fun h => absurd h hE, fun h => absurd h hs, fun h => absurd h hU,
    fun h => absurd h hu⟩

theorem length_sides (updates : List LevelUpdate) :
    updates.length = (sideLevels .buy updates).length + (sideLevels .sell updates).length := by
  induction updates with
  | nil => rfl
  | cons update updates ih =>
      obtain ⟨side, price, qty⟩ := update
      cases side <;> simp [sideLevels] at ih ⊢ <;> omega

theorem SideTold.length_le {c : DepthContent} {levels : List Level} {side : Side} {seen : List Bytes}
    {fields : Fields} (h : SideTold c levels side seen fields) :
    (sideLevels side fields.updates).length ≤ levels.length := by
  cases h with
  | absent _ _ _ hupdates => simp [hupdates]
  | deferred _ _ _ _ _ hupdates => simp [hupdates]
  | read _ _ _ hupdates => rw [hupdates]

/-- A side depends on its own levels and places only. -/
theorem SideTold.congr {c : DepthContent} {levels : List Level} {side : Side} {seen seen' : List Bytes}
    {fields fields' : Fields} (h : SideTold c levels side seen fields)
    (hseen : ascii (sideName side) ∈ seen' ↔ ascii (sideName side) ∈ seen)
    (hdeferred : fields'.deferred side = fields.deferred side)
    (hread : fields'.sidesRead side = fields.sidesRead side)
    (hupdates : sideLevels side fields'.updates = sideLevels side fields.updates) :
    SideTold c levels side seen' fields' := by
  cases h with
  | absent hs hd hr hu =>
      exact .absent (mt hseen.mp hs) (hdeferred.trans hd) (hread.trans hr) (hupdates.trans hu)
  | deferred hs hw ht hd hr hu =>
      exact .deferred (hseen.mpr hs) hw ht (hdeferred.trans hd) (hread.trans hr) (hupdates.trans hu)
  | read hs hd hr hu =>
      exact .read (hseen.mpr hs) (hdeferred.trans hd) (hread.trans hr) (hupdates.trans hu)

theorem mem_snoc_of_ne {seen : List Bytes} {name other : Bytes} (h : name ≠ other) :
    other ∈ seen ++ [name] ↔ other ∈ seen := by
  simp [h.symm]

section Members

variable {instruments : InstrumentTable} {limit : Nat} {c : DepthContent} {levels : Side → List Level}
  {seen : List Bytes} {fields : Fields}

/-- There is room for a side that is not there yet. -/
theorem Collected.room (hc : Decodable instruments limit c levels) (h : Collected c levels seen fields)
    {side : Side} (hnone : sideLevels side fields.updates = []) :
    fields.updates.length + (levels side).length ≤ limit := by
  have hlength := length_sides fields.updates
  have hbuy := (h.sides .buy).length_le
  have hsell := (h.sides .sell).length_le
  have hroom := hc.room
  cases side with
  | buy =>
      rw [hnone, List.length_nil] at hlength
      omega
  | sell =>
      rw [hnone, List.length_nil] at hlength
      omega

/-- One more name, behind fields that still tell what they told. -/
theorem Collected.told_snoc {fields' : Fields} {name : Bytes} (h : Collected c levels seen fields)
    (htold : Told c fields' name) (hkept : ∀ other, Told c fields other → Told c fields' other) :
    ∀ other ∈ seen ++ [name], Told c fields' other := by
  intro other hother
  rcases List.mem_append.mp hother with hother | hother
  · exact hkept other (h.told other hother)
  · rw [List.mem_singleton.mp hother]
    exact htold

/-- A member that is no side: it may set the field of its name. -/
theorem Collected.snoc {fields' : Fields} {name : Bytes} (h : Collected c levels seen fields)
    (hname : ∀ side, name ≠ ascii (sideName side)) (htold : Told c fields' name)
    (hkept : ∀ other, Told c fields other → Told c fields' other)
    (hinstrument : ∀ i, fields'.instrument = some i → i = c.instrument)
    (hdeferred : fields'.deferred = fields.deferred) (hread : fields'.sidesRead = fields.sidesRead)
    (hupdates : fields'.updates = fields.updates) : Collected c levels (seen ++ [name]) fields' := by
  refine ⟨h.told_snoc htold hkept, hinstrument, fun side => ?_⟩
  exact (h.sides side).congr (mem_snoc_of_ne (hname side)) (by rw [hdeferred]) (by rw [hread])
    (by rw [hupdates])

/-- A side that was not there yet: its levels are read, or its place is kept. -/
theorem readSideMember_complete (hc : Decodable instruments limit c levels)
    (h : Collected c levels seen fields) {side : Side} (hfresh : ascii (sideName side) ∉ seen)
    {depth : Nat} (hroom : depth + 1 < maxDepth) {t : Bytes} (ht : LevelsText (c.texts side) t)
    {m r' : Reader} (hvalue : ValueAt depth t m r') :
    ∃ fields', readSideMember limit side fields m = .ok (fields', r') ∧
      Collected c levels (seen ++ [ascii (sideName side)]) fields' := by
  obtain ⟨w, hw, htook⟩ := hvalue.took
  have hdepth : r'.depth = m.depth := hvalue.after.trans hvalue.before.symm
  have hroom' : m.depth + 1 < maxDepth := by rw [hvalue.before]; exact hroom
  obtain ⟨hdeferred, hread, hupdates⟩ : fields.deferred side = none ∧ fields.sidesRead side = false ∧
      sideLevels side fields.updates = [] := by
    cases h.sides side with
    | absent _ hdeferred hread hupdates => exact ⟨hdeferred, hread, hupdates⟩
    | deferred hseen => exact absurd hseen hfresh
    | read hseen => exact absurd hseen hfresh
  have hother : ∀ other, side ≠ other → ascii (sideName side) ≠ ascii (sideName other) :=
    fun other => sideName_ne
  rw [readSideMember, if_neg (by simp [hread, hdeferred])]
  cases hinstrument : fields.instrument with
  | some instrument =>
      obtain rfl := h.instrument instrument hinstrument
      have hlevels := readSide_complete side ht (hc.texts side) hw hroom' htook hdepth
        hvalue.afterValue (h.room hc hupdates)
      refine ⟨{ fields with
          updates := fields.updates ++ (levels side).map fun level => ⟨side, level.price, level.qty⟩
          sidesRead := Function.update fields.sidesRead side true },
        ?_, h.told_snoc (told_side side) ?_, fun i hi => h.instrument i hi, fun other => ?_⟩
      · dsimp only
        rw [hlevels]
        rfl
      · intro other hother
        exact ⟨hother.event, hother.time, hother.instrument, hother.first, hother.last⟩
      · by_cases heq : side = other
        · subst heq
          refine .read (by simp) hdeferred (by simp) ?_
          rw [sideLevels_append_same, hupdates, List.nil_append]
        · refine (h.sides other).congr (mem_snoc_of_ne (hother other heq)) rfl ?_
            (sideLevels_append_other heq _ _)
          simp [Function.update_of_ne (Ne.symm heq)]
  | none =>
      have hskip := skip_levels ht (hc.texts side) hw hroom' htook hdepth hvalue.afterValue
      refine ⟨{ fields with deferred := Function.update fields.deferred side (some m.rest) },
        ?_, h.told_snoc (told_side side) ?_, fun i hi => h.instrument i hi, fun other => ?_⟩
      · simp [fromJson_eq_ok.mpr hskip, hinstrument, bind, Except.bind]
      · intro other hother
        exact ⟨hother.event, hother.time, hother.instrument, hother.first, hother.last⟩
      · by_cases heq : side = other
        · subst heq
          have hplace : Function.update fields.deferred side (some m.rest) side =
              some (w ++ (t ++ r'.rest)) := by
            simp [htook.rest]
          exact .deferred (by simp) hw ht hplace hread hupdates
        · refine (h.sides other).congr (mem_snoc_of_ne (hother other heq)) ?_ rfl rfl
          simp [Function.update_of_ne (Ne.symm heq)]

theorem readMember_side (side : Side) (fields : Fields) (r : Reader) :
    readMember instruments limit (ascii (sideName side)) fields r =
      readSideMember limit side fields r := by
  cases side with
  | buy =>
      rw [sideName, readMember, if_neg (by simp [ascii]), if_neg (by simp [ascii]),
        if_neg (by simp [ascii]), if_neg (by simp [ascii]), if_neg (by simp [ascii]), if_pos rfl]
  | sell =>
      rw [sideName, readMember, if_neg (by simp [ascii]), if_neg (by simp [ascii]),
        if_neg (by simp [ascii]), if_neg (by simp [ascii]), if_neg (by simp [ascii]),
        if_neg (by simp [ascii]), if_pos rfl]

/-- A member with an event, a number or a symbol sets its field. -/
theorem readMember_scalar (hc : Decodable instruments limit c levels)
    (h : Collected c levels seen fields) {depth : Nat} {side : Side → Bytes} {name value : Bytes}
    (hx : (name, value) ∈ (c.members side).take 5) {m r' : Reader}
    (hvalue : ValueAt depth value m r') :
    ∃ fields', readMember instruments limit name fields m = .ok (fields', r') ∧
      Collected c levels (seen ++ [name]) fields' := by
  obtain ⟨w, hw, htook⟩ := hvalue.took
  have hdepth : r'.depth = m.depth := hvalue.after.trans hvalue.before.symm
  have hnumber : ∀ {n : Nat}, n < 2 ^ 64 → value = natText n → m.u64 = .ok (n, r') := by
    intro n hn hx
    rw [hx] at htook
    exact Reader.u64_complete hn hw htook hdepth hvalue.afterValue hvalue.stop
  have hstring : ∀ {text : Bytes}, Rfc8259.PlainName text → value = quote text → m.str = .ok (text, r') := by
    intro text htext hx
    rw [hx] at htook
    exact Reader.str_eq_ok.mpr ⟨htext, w, hw, htook, hdepth, hvalue.afterValue⟩
  have hmillis := hc.millis
  have hlast := c.range.bounded
  have hfirst := c.range.le
  unfold u64Max at hlast
  simp only [DepthContent.members, List.take_succ_cons, List.take_zero, List.mem_cons,
    List.not_mem_nil, or_false, Prod.mk.injEq] at hx
  have hne : ∀ other, name ≠ ascii (sideName other) := by
    intro other
    rcases hx with ⟨rfl, -⟩ | ⟨rfl, -⟩ | ⟨rfl, -⟩ | ⟨rfl, -⟩ | ⟨rfl, -⟩ <;> cases other <;>
      simp [ascii, sideName]
  obtain ⟨rfl, rfl⟩ | ⟨rfl, rfl⟩ | ⟨rfl, rfl⟩ | ⟨rfl, rfl⟩ | ⟨rfl, rfl⟩ := hx
  · have hevent : m.str = .ok (ascii "depthUpdate", r') :=
      hstring (plainName_of_visible (by simp [ascii]) (by simp [ascii]) (by simp [ascii])) rfl
    refine ⟨{ fields with eventSeen := true }, ?_, h.snoc hne ?_ ?_ h.instrument rfl rfl rfl⟩
    · rw [readMember, if_pos rfl, fromJson_eq_ok.mpr hevent]
      rfl
    · constructor <;> simp [ascii]
    · intro other hother
      exact ⟨fun _ => rfl, hother.time, hother.instrument, hother.first, hother.last⟩
  · have htime := hnumber (n := c.millis) (by omega) rfl
    refine ⟨{ fields with eventTime := some c.millis }, ?_, h.snoc hne ?_ ?_ h.instrument rfl rfl rfl⟩
    · rw [readMember, if_neg (by simp [ascii]), if_pos rfl, fromJson_eq_ok.mpr htime]
      rfl
    · constructor <;> simp [ascii]
    · intro other hother
      exact ⟨hother.event, fun _ => rfl, hother.instrument, hother.first, hother.last⟩
  · have hsymbol := hstring hc.symbol rfl
    refine ⟨{ fields with instrument := some c.instrument }, ?_, h.snoc hne ?_ ?_ ?_ rfl rfl rfl⟩
    · rw [readMember, if_neg (by simp [ascii]), if_neg (by simp [ascii]), if_pos rfl]
      refine except_bind_eq_ok.mpr ⟨_, fromJson_eq_ok.mpr hsymbol, ?_⟩
      simp only [hc.find]
    · constructor <;> simp [ascii]
    · intro other hother
      exact ⟨hother.event, hother.time, fun _ => rfl, hother.first, hother.last⟩
    · intro i hi
      exact (Option.some.inj hi).symm
  · have hnum := hnumber (n := c.range.first) (by omega) rfl
    refine ⟨{ fields with first := some c.range.first }, ?_, h.snoc hne ?_ ?_ h.instrument rfl rfl rfl⟩
    · rw [readMember, if_neg (by simp [ascii]), if_neg (by simp [ascii]), if_neg (by simp [ascii]),
        if_pos rfl, fromJson_eq_ok.mpr hnum]
      rfl
    · constructor <;> simp [ascii]
    · intro other hother
      exact ⟨hother.event, hother.time, hother.instrument, fun _ => rfl, hother.last⟩
  · have hnum := hnumber (n := c.range.last) (by omega) rfl
    refine ⟨{ fields with last := some c.range.last }, ?_, h.snoc hne ?_ ?_ h.instrument rfl rfl rfl⟩
    · rw [readMember, if_neg (by simp [ascii]), if_neg (by simp [ascii]), if_neg (by simp [ascii]),
        if_neg (by simp [ascii]), if_pos rfl, fromJson_eq_ok.mpr hnum]
      rfl
    · constructor <;> simp [ascii]
    · intro other hother
      exact ⟨hother.event, hother.time, hother.instrument, hother.first, fun _ => rfl⟩

/-- A member that nobody asked for is passed over. -/
theorem readMember_extra {depth : Nat} (hdepth : depth ≤ maxDepth) {x : Bytes × Bytes}
    (hx : Extra depth x) {m r' : Reader} (hvalue : ValueAt depth x.2 m r') (fields : Fields) :
    readMember instruments limit x.1 fields m = .ok (fields, r') := by
  have hname := hx.name
  simp only [updateNames, List.map_cons, List.map_nil, List.mem_cons, List.not_mem_nil, or_false,
    not_or] at hname
  obtain ⟨-, he, hE, hs, hU, hu, hb, ha⟩ := hname
  rw [readMember, if_neg he, if_neg hE, if_neg hs, if_neg hU, if_neg hu, if_neg hb, if_neg ha,
    fromJson_eq_ok.mpr (hx.skip hdepth hvalue)]
  rfl

/-- Any member of a payload. -/
theorem readMember_complete (hc : Decodable instruments limit c levels) {depth : Nat}
    (hroom : depth + 1 < maxDepth) {side : Side → Bytes} {extras : List (Bytes × Bytes)}
    (hside : ∀ s, LevelsText (c.texts s) (side s)) (hextras : ∀ x ∈ extras, Extra depth x)
    {x : Bytes × Bytes} (hx : x ∈ c.members side ++ extras) (hfresh : x.1 ∈ updateNames → x.1 ∉ seen)
    (h : Collected c levels seen fields) {m r' : Reader} (hvalue : ValueAt depth x.2 m r') :
    ∃ fields', readMember instruments limit x.1 fields m = .ok (fields', r') ∧
      Collected c levels (seen ++ [x.1]) fields' := by
  obtain ⟨name, value⟩ := x
  have hcases : (name, value) ∈ (c.members side).take 5 ∨
      (∃ s, (name, value) = (ascii (sideName s), side s)) ∨ (name, value) ∈ extras := by
    rcases List.mem_append.mp hx with hx | hx
    · rw [← List.take_append_drop 5 (c.members side)] at hx
      rcases List.mem_append.mp hx with hx | hx
      · exact .inl hx
      · have hlast : (name, value) = (ascii "b", side .buy) ∨ (name, value) = (ascii "a", side .sell) := by
          simpa [DepthContent.members] using hx
        rcases hlast with hb | ha
        · exact .inr (.inl ⟨.buy, hb⟩)
        · exact .inr (.inl ⟨.sell, ha⟩)
    · exact .inr (.inr hx)
  rcases hcases with hx | ⟨s, hx⟩ | hx
  · exact readMember_scalar hc h hx hvalue
  · obtain ⟨rfl, rfl⟩ := Prod.mk.inj hx
    have hknown : ascii (sideName s) ∈ updateNames := by cases s <;> simp [ascii, sideName, updateNames]
    obtain ⟨fields', hread, hcollected⟩ :=
      readSideMember_complete hc h (hfresh hknown) hroom (hside s) hvalue
    exact ⟨fields', (readMember_side s fields m).trans hread, hcollected⟩
  · have hextra := hextras _ hx
    have hname : name ∉ updateNames := fun hmem => hextra.name (List.mem_cons_of_mem _ hmem)
    refine ⟨fields, readMember_extra (by omega) hextra hvalue fields, ?_⟩
    refine h.snoc (fun s heq => hname ?_) (told_extra hname) (fun _ => id) h.instrument rfl rfl rfl
    rw [show name = ascii (sideName s) from heq]
    cases s <;> simp [ascii, sideName, updateNames]

end Members

/-! ## §5 Objects -/

/-- The loop over members, along the members in their order: what each of them keeps,
all of them keep. -/
theorem readMembers_complete {member : Bytes → Fields → Reader → Except DecodeError (Fields × Reader)}
    {depth : Nat} {members : List (Bytes × Bytes)} {P : List (Bytes × Bytes) → Fields → Prop}
    (hstep : ∀ {done x todo fields m r₁}, members = done ++ x :: todo → ValueAt depth x.2 m r₁ →
      P done fields → ∃ fields', member x.1 fields m = .ok (fields', r₁) ∧ P (done ++ [x]) fields')
    {r' : Reader} (hdepth : r'.depth = depth - 1) (hafter : r'.afterValue = true) :
    ∀ {rounds : Nat} {done todo : List (Bytes × Bytes)} {front : Bytes} {fields : Fields} {r : Reader},
      members = done ++ todo → Tail (Member Rfc8259.PlainName fun _ => True) 125 r.afterValue todo front →
      r.Took front r' → r.depth = depth → r.rest.length < rounds → P done fields →
      ∃ fields', readMembers member rounds fields r = .ok (fields', r') ∧ P members fields' := by
  intro rounds
  induction rounds with
  | zero =>
      intro done todo front fields r _ _ _ _ hrounds _
      omega
  | succ rounds ih =>
      intro done todo front fields r hmembers htail htook hr hrounds hP
      cases htail with
      | close hw =>
          have hclosed := Reader.nextKey_none.mpr ⟨_, hw, htook, by rw [hr]; exact hdepth, hafter⟩
          refine ⟨fields, ?_, by rw [hmembers, List.append_nil]; exact hP⟩
          rw [readMembers, fromJson_eq_ok.mpr hclosed]
          rfl
      | @more _ x todo sep t front' hsep ht htail =>
          obtain ⟨hname, -, w, w', hw, hw', rfl⟩ := ht
          have hpieces : sep ++ (34 :: (x.1 ++ 34 :: (w ++ 58 :: (w' ++ x.2))) ++ front') =
              (sep ++ 34 :: (x.1 ++ 34 :: (w ++ [58]))) ++ ((w' ++ x.2) ++ front') := by simp
          rw [hpieces] at htook
          obtain ⟨m, hm, htook₁, hmdepth, hmafter⟩ := htook.split depth false
          obtain ⟨r₁, hr₁, hrest, hdepth₁, hafter₁⟩ := htook₁.split depth true
          have hkey := Reader.nextKey_some.mpr ⟨hname, sep, w, hsep, hw, hm, hmdepth.trans hr.symm, hmafter⟩
          have hstop : ∀ b ∈ r₁.rest.head?, Reader.isNumberByte b = false := by
            rw [hrest.rest]
            exact Reader.tail_stops htail rfl r'.rest
          obtain ⟨fields₁, hread, hP₁⟩ :=
            hstep hmembers ⟨⟨w', hw', hr₁⟩, hmdepth, hdepth₁, hafter₁, hstop⟩ hP
          have hlen := congrArg List.length (hm.trans hr₁).rest
          simp only [List.length_append, List.length_cons] at hlen
          rw [← hafter₁] at htail
          obtain ⟨fields', hlast, hP'⟩ := ih (by simpa using hmembers) htail hrest hdepth₁ (by omega) hP₁
          refine ⟨fields', ?_, hP'⟩
          rw [readMembers, fromJson_eq_ok.mpr hkey]
          show (member x.1 fields m >>= _) = _
          rw [hread]
          exact hlast

/-- An object from its opening brace on. -/
theorem readObject_complete (member : Bytes → Fields → Reader → Except DecodeError (Fields × Reader))
    {depth : Nat} {members : List (Bytes × Bytes)} {P : List (Bytes × Bytes) → Fields → Prop}
    (hstep : ∀ {done x todo fields m r₁}, members = done ++ x :: todo → ValueAt (depth + 1) x.2 m r₁ →
      P done fields → ∃ fields', member x.1 fields m = .ok (fields', r₁) ∧ P (done ++ [x]) fields')
    (hroom : depth < maxDepth) {t : Bytes} (ht : ObjectText members t) {w : Bytes} (hw : White w)
    {m r' : Reader} (htook : m.Took (w ++ t) r') (hm : m.depth = depth) (hr' : r'.depth = depth)
    (hafter : r'.afterValue = true) {fields : Fields} (hP : P [] fields) :
    ∃ fields', (do
      let r ← fromJson m.beginObject
      readMembers member (r.rest.length + 1) fields r) = .ok (fields', r') ∧ P members fields' := by
  obtain ⟨body, hbody, rfl⟩ := ht
  obtain ⟨r₁, front, hopen, htail, htook₁, hdepth₁, -⟩ :=
    Reader.enter_complete "'\x7b'" rfl hbody hw (by omega) htook
  obtain ⟨fields', hread, hP'⟩ := readMembers_complete hstep (by omega) hafter
    (show members = [] ++ members from rfl) htail htook₁ (by omega) (Nat.lt_succ_self _) hP
  refine ⟨fields', ?_, hP'⟩
  rw [Reader.beginObject, fromJson_eq_ok.mpr hopen]
  exact hread

/-- A name that is there once was not there before. -/
theorem fresh_of_perm {known extras done todo : List Bytes} {name : Bytes}
    (hperm : (done ++ name :: todo).Perm (known ++ extras)) (hnodup : known.Nodup) (hname : name ∈ known)
    (hextras : name ∉ extras) : name ∉ done := by
  have hcount := hperm.count_eq name
  rw [List.count_append, List.count_append, List.count_cons_self, List.count_eq_one_of_mem hnodup hname,
    List.count_eq_zero_of_not_mem hextras] at hcount
  exact List.count_eq_zero.mp (by omega)

section Objects

variable {instruments : InstrumentTable} {limit : Nat} {c : DepthContent} {levels : Side → List Level}

/-- All of a payload was collected. -/
def Complete (c : DepthContent) (levels : Side → List Level) (fields : Fields) : Prop :=
  ∃ seen, (∀ name ∈ updateNames, name ∈ seen) ∧ Collected c levels seen fields

theorem collected_empty : Collected c levels [] .empty := by
  refine ⟨by simp, by simp [Fields.empty], fun side => .absent (by simp) rfl rfl rfl⟩

theorem map_members (side : Side → Bytes) : (c.members side).map Prod.fst = updateNames := rfl

/-- One of the members of a payload, behind others. -/
theorem payloadMember_complete (hc : Decodable instruments limit c levels) {depth : Nat}
    (hroom : depth + 1 < maxDepth) {side : Side → Bytes} {extras members : List (Bytes × Bytes)}
    (hside : ∀ s, LevelsText (c.texts s) (side s)) (hextras : ∀ x ∈ extras, Extra depth x)
    (hperm : members.Perm (c.members side ++ extras)) {done todo : List (Bytes × Bytes)}
    {x : Bytes × Bytes} (hsplit : members = done ++ x :: todo) {m r₁ : Reader}
    (hvalue : ValueAt depth x.2 m r₁) {fields : Fields}
    (h : Collected c levels (done.map Prod.fst) fields) :
    x.1 ≠ ascii "data" ∧ ∃ fields', readMember instruments limit x.1 fields m = .ok (fields', r₁) ∧
      Collected c levels ((done ++ [x]).map Prod.fst) fields' := by
  have hx : x ∈ c.members side ++ extras := hperm.mem_iff.mp (by simp [hsplit])
  have hnames := hperm.map Prod.fst
  rw [hsplit, List.map_append, List.map_cons, List.map_append, map_members] at hnames
  have hfresh : x.1 ∈ updateNames → x.1 ∉ done.map Prod.fst := by
    intro hknown
    refine fresh_of_perm hnames (by simp [ascii, updateNames]) hknown fun hmem => ?_
    obtain ⟨y, hy, heq⟩ := List.mem_map.mp hmem
    exact (hextras y hy).name (by rw [heq]; exact List.mem_cons_of_mem _ hknown)
  refine ⟨fun hdata => ?_, ?_⟩
  · rcases List.mem_append.mp hx with hx | hx
    · have hknown : x.1 ∈ updateNames := by
        rw [← map_members (c := c) side]
        exact List.mem_map_of_mem hx
      rw [hdata] at hknown
      exact absurd hknown (by simp [ascii, updateNames])
    · exact (hextras x hx).name (by simp [hdata])
  · rw [List.map_append]
    exact readMember_complete hc hroom hside hextras hx hfresh h hvalue

/-- At the end of a payload, all of it was collected. -/
theorem complete_of_perm {side : Side → Bytes} {extras members : List (Bytes × Bytes)} {fields : Fields}
    (hperm : members.Perm (c.members side ++ extras))
    (h : Collected c levels (members.map Prod.fst) fields) : Complete c levels fields := by
  refine ⟨_, fun name hname => ?_, h⟩
  rw [← map_members (c := c) side] at hname
  obtain ⟨x, hx, rfl⟩ := List.mem_map.mp hname
  exact List.mem_map_of_mem (hperm.mem_iff.mpr (by simp [hx]))

/-- A payload inside an envelope. -/
theorem readPayload_complete (hc : Decodable instruments limit c levels) {depth : Nat}
    (hroom : depth + 2 < maxDepth) {t : Bytes} (ht : c.Payload (depth + 1) t) {m r' : Reader}
    (hvalue : ValueAt depth t m r') : ∃ fields',
      readPayload instruments limit .empty m = .ok (fields', r') ∧ Complete c levels fields' := by
  obtain ⟨side, extras, members, hside, hextras, hperm, hobject⟩ := ht
  obtain ⟨w, hw, htook⟩ := hvalue.took
  obtain ⟨fields', hread, hcollected⟩ := readObject_complete (readMember instruments limit)
    (P := fun done fields => Collected c levels (done.map Prod.fst) fields)
    (fun hsplit hx h => (payloadMember_complete hc hroom hside hextras hperm hsplit hx h).2)
    (by omega) hobject hw htook hvalue.before hvalue.after hvalue.afterValue collected_empty
  exact ⟨fields', hread, complete_of_perm hperm hcollected⟩

/-- A message that is a payload. -/
theorem readEnvelope_raw (hc : Decodable instruments limit c levels) {t : Bytes} (ht : c.Payload 1 t)
    {m r' : Reader} (hvalue : ValueAt 0 t m r') : ∃ fields',
      readEnvelope instruments limit .empty m = .ok (fields', r') ∧ Complete c levels fields' := by
  obtain ⟨side, extras, members, hside, hextras, hperm, hobject⟩ := ht
  obtain ⟨w, hw, htook⟩ := hvalue.took
  obtain ⟨fields', hread, hcollected⟩ := readObject_complete
    (fun key fields r => if key = ascii "data" then readPayload instruments limit fields r
      else readMember instruments limit key fields r)
    (P := fun done fields => Collected c levels (done.map Prod.fst) fields)
    (by
      intro done x todo fields m r₁ hsplit hx h
      obtain ⟨hdata, hmember⟩ :=
        payloadMember_complete hc (by decide) hside hextras hperm hsplit hx h
      simpa only [if_neg hdata] using hmember)
    (by decide) hobject hw htook hvalue.before hvalue.after hvalue.afterValue collected_empty
  exact ⟨fields', hread, complete_of_perm hperm hcollected⟩

/-- A message that has its payload for its data. -/
theorem readEnvelope_data (hc : Decodable instruments limit c levels) {payload t : Bytes}
    (hpayload : c.Payload 2 payload) {extras members : List (Bytes × Bytes)}
    (hextras : ∀ x ∈ extras, Extra 1 x) (hperm : members.Perm ((ascii "data", payload) :: extras))
    (hobject : ObjectText members t) {m r' : Reader} (hvalue : ValueAt 0 t m r') : ∃ fields',
      readEnvelope instruments limit .empty m = .ok (fields', r') ∧ Complete c levels fields' := by
  obtain ⟨w, hw, htook⟩ := hvalue.took
  have hnodata : ascii "data" ∉ extras.map Prod.fst := by
    intro hmem
    obtain ⟨x, hx, heq⟩ := List.mem_map.mp hmem
    exact (hextras x hx).name (by simp [heq])
  obtain ⟨fields', hread, hP⟩ := readObject_complete
    (fun key fields r => if key = ascii "data" then readPayload instruments limit fields r
      else readMember instruments limit key fields r)
    -- Nothing is collected before the data, and all of it behind.
    (P := fun done fields => (ascii "data" ∉ done.map Prod.fst ∧ fields = .empty) ∨
      (ascii "data" ∈ done.map Prod.fst ∧ Complete c levels fields))
    (by
      intro done x todo fields m r₁ hsplit hx hP
      have hmem : x ∈ (ascii "data", payload) :: extras := hperm.mem_iff.mp (by simp [hsplit])
      rcases List.mem_cons.mp hmem with rfl | hmem
      · have hnames : (done.map Prod.fst ++ ascii "data" :: todo.map Prod.fst).Perm
            ([ascii "data"] ++ extras.map Prod.fst) := by
          simpa [hsplit] using hperm.map Prod.fst
        have hfresh := fresh_of_perm hnames (by simp) (by simp) hnodata
        rcases hP with ⟨-, rfl⟩ | ⟨hdone, -⟩
        · obtain ⟨fields', hread, hcomplete⟩ := readPayload_complete hc (by decide) hpayload hx
          exact ⟨fields', by simpa only [if_pos] using hread, .inr ⟨by simp, hcomplete⟩⟩
        · exact absurd hdone hfresh
      · have hextra := hextras x hmem
        have hdata : x.1 ≠ ascii "data" := fun heq => hextra.name (by simp [heq])
        have hread : readMember instruments limit x.1 fields m = .ok (fields, r₁) :=
          readMember_extra (by decide) hextra hx fields
        refine ⟨fields, by simpa only [if_neg hdata] using hread, ?_⟩
        simpa [hdata.symm] using hP)
    (by decide) hobject hw htook hvalue.before hvalue.after hvalue.afterValue
    (.inl ⟨by simp, rfl⟩)
  rcases hP with ⟨hdone, -⟩ | ⟨-, hcomplete⟩
  · have hmem : (ascii "data", payload) ∈ members := hperm.mem_iff.mpr (by simp)
    exact absurd (List.mem_map_of_mem hmem) hdone
  · exact ⟨fields', hread, hcomplete⟩

end Objects

/-! ## §6 Updates -/

section Updates

variable {instruments : InstrumentTable} {limit : Nat} {c : DepthContent} {levels : Side → List Level}

/-- A side that stood before the symbol is read at the end, one behind it is there. -/
theorem finishSide_complete (hc : Decodable instruments limit c levels) {side : Side}
    {seen : List Bytes} {fields : Fields} (h : SideTold c (levels side) side seen fields)
    (hseen : ascii (sideName side) ∈ seen) (hroom : sideLevels side fields.updates = [] →
      fields.updates.length + (levels side).length ≤ limit) :
    ∃ updates, finishSide limit side c.instrument fields = .ok { fields with updates } ∧
      sideLevels side updates = levels side ∧
      ∀ other, side ≠ other → sideLevels other updates = sideLevels other fields.updates := by
  cases h with
  | absent habsent => exact absurd hseen habsent
  | @deferred w t back _ hw ht hdeferred hread hupdates =>
      let r' : Reader := ⟨back, (w ++ t).length, 0, true⟩
      have htook : (Reader.new (w ++ (t ++ back))).Took (w ++ t) r' :=
        ⟨by simp [Reader.new, r'], by simp [Reader.new, r']⟩
      have hdepth : (Reader.new (w ++ (t ++ back))).depth + 1 < maxDepth := show 0 + 1 < 32 by decide
      have hlevels := readSide_complete side ht (hc.texts side) hw hdepth htook rfl rfl (hroom hupdates)
      refine ⟨_, ?_, ?_, fun other hother => sideLevels_append_other hother _ (levels side)⟩
      · rw [finishSide]
        simp only [hdeferred, hlevels]
        rfl
      · rw [sideLevels_append_same, hupdates, List.nil_append]
  | read _ hdeferred hread hupdates =>
      refine ⟨fields.updates, ?_, hupdates, fun _ _ => rfl⟩
      rw [finishSide]
      simp only [hdeferred, hread]

/-- What was collected makes the update. -/
theorem decode_of_complete (hc : Decodable instruments limit c levels) {message : Bytes}
    {fields : Fields} {r : Reader}
    (hread : readEnvelope instruments limit .empty (Reader.new message) = .ok (fields, r))
    (hfinish : r.finish = .ok ()) (h : Complete c levels fields) : ∃ updates,
      decodeUpdate instruments limit message =
        .ok ⟨c.instrument.id, ⟨UInt64.ofNat (c.millis * 1000000)⟩, c.range, updates⟩ ∧
      ∀ side, sideLevels side updates = levels side := by
  obtain ⟨seen, hseen, hcollected⟩ := h
  have htold : ∀ name ∈ updateNames, Told c fields name := fun name hname =>
    hcollected.told name (hseen name hname)
  have hevent := (htold (ascii "e") (by simp [updateNames])).event rfl
  have htime := (htold (ascii "E") (by simp [updateNames])).time rfl
  have hinstrument := (htold (ascii "s") (by simp [updateNames])).instrument rfl
  have hfirst := (htold (ascii "U") (by simp [updateNames])).first rfl
  have hlast := (htold (ascii "u") (by simp [updateNames])).last rfl
  obtain ⟨updates₁, hbuy, hbuyLevels, hother₁⟩ := finishSide_complete hc (hcollected.sides .buy)
    (hseen _ (by simp [updateNames, sideName])) (hcollected.room hc)
  have hsellSide : SideTold c (levels .sell) .sell seen { fields with updates := updates₁ } :=
    (hcollected.sides .sell).congr Iff.rfl rfl rfl (hother₁ .sell (by decide))
  obtain ⟨updates₂, hsell, hsellLevels, hother₂⟩ := finishSide_complete hc hsellSide
    (hseen _ (by simp [updateNames, sideName])) (by
      intro hnone
      have hlength := length_sides updates₁
      have hroom := hc.room
      rw [hbuyLevels, hnone, List.length_nil] at hlength
      dsimp only
      omega)
  have hrange : SeqRange.new c.range.first c.range.last = some c.range :=
    dif_pos ⟨c.range.le, c.range.bounded⟩
  have hwall : WallTime.fromUnixMillis c.millis = some ⟨UInt64.ofNat (c.millis * 1000000)⟩ :=
    if_pos hc.millis
  refine ⟨updates₂, ?_, fun side => ?_⟩
  · refine except_bind_eq_ok.mpr ⟨_, hread, ?_⟩
    refine except_bind_eq_ok.mpr ⟨(), fromJson_eq_ok.mpr hfinish, ?_⟩
    refine except_bind_eq_ok.mpr ⟨_, orMissing_eq_ok.mpr hinstrument, ?_⟩
    refine except_bind_eq_ok.mpr ⟨_, hbuy, except_bind_eq_ok.mpr ⟨_, hsell, ?_⟩⟩
    rw [if_neg (by simp [hevent])]
    refine except_bind_eq_ok.mpr ⟨_, orMissing_eq_ok.mpr hfirst, ?_⟩
    refine except_bind_eq_ok.mpr ⟨_, orMissing_eq_ok.mpr hlast, ?_⟩
    rw [hrange]
    refine except_bind_eq_ok.mpr ⟨_, orMissing_eq_ok.mpr ?_, rfl⟩
    rw [htime, Option.bind_some, hwall]
  · cases side with
    | buy => rw [hother₂ .buy (by decide), hbuyLevels]
    | sell => exact hsellLevels

end Updates

/-- A symbol without quotes and backslashes is a plain name. -/
theorem plainName_of_symbol {symbol : Symbol} (h : 34 ∉ symbol.text ∧ 92 ∉ symbol.text) :
    Rfc8259.PlainName symbol.text := by
  have hvalid := symbol.valid
  simp only [validSymbol, isAsciiGraphic, Bool.and_eq_true, List.all_eq_true, decide_eq_true_eq] at hvalid
  exact plainName_of_visible hvalid.2 h.1 h.2

/-- **A depth update decodes the same in any layout.** Whatever the order of its
members, the white space, the extra members and the envelope, and whether its levels
stand before or behind the symbol: the message is decoded to its instrument, its time
and its range, and to the levels of either side in their order. -/
theorem update_decodes_in_any_layout (instruments : InstrumentTable) (limit : Nat) (c : DepthContent)
    (levels : Side → List Level) (hmem : c.instrument ∈ instruments.instruments)
    (hvenue : c.instrument.venue = .binance)
    (hsymbol : 34 ∉ c.instrument.symbol.text ∧ 92 ∉ c.instrument.symbol.text)
    (hmillis : c.millis * 1000000 < 2 ^ 64)
    (hlevels : ∀ side, List.Forall₂ (LevelOf c.instrument) (c.texts side) (levels side))
    (hlimit : (c.texts .buy).length + (c.texts .sell).length ≤ limit) {message : Bytes}
    (hmessage : c.Message message) : ∃ update, decodeUpdate instruments limit message = .ok update ∧
      update.instrument = c.instrument.id ∧ update.eventTime.nanos.toNat = c.millis * 1000000 ∧
      update.range = c.range ∧ ∀ side, sideLevels side update.updates = levels side := by
  have hc : Decodable instruments limit c levels := by
    refine ⟨?_, plainName_of_symbol hsymbol, hmillis, hlevels, ?_⟩
    · rw [← hvenue]
      exact InstrumentTable.find_of_mem hmem
    · rw [← (hlevels .buy).length_eq, ← (hlevels .sell).length_eq]
      exact hlimit
  obtain ⟨w, t, w', hw, ht, hw', rfl⟩ := hmessage
  let r : Reader := ⟨w', (w ++ t).length, 0, true⟩
  have hvalue : ValueAt 0 t (Reader.new (w ++ (t ++ w'))) r := by
    refine ⟨⟨w, hw, by simp [Reader.new, r], by simp [Reader.new, r]⟩, rfl, rfl, rfl, fun b hb => ?_⟩
    rcases hw' b (List.mem_of_mem_head? hb) with rfl | rfl | rfl | rfl <;> rfl
  obtain ⟨fields, hread, hcomplete⟩ : ∃ fields, readEnvelope instruments limit .empty
      (Reader.new (w ++ (t ++ w'))) = .ok (fields, r) ∧ Complete c levels fields := by
    rcases ht with ht | ⟨payload, extras, members, hpayload, hextras, hperm, hobject⟩
    · exact readEnvelope_raw hc ht hvalue
    · exact readEnvelope_data hc hpayload hextras hperm hobject hvalue
  obtain ⟨updates, hdecode, hsides⟩ :=
    decode_of_complete hc hread (Reader.finish_eq_ok.mpr ⟨rfl, hw'⟩) hcomplete
  exact ⟨_, hdecode, rfl, UInt64.toNat_ofNat_of_lt' hmillis, rfl, hsides⟩

/-- One bid, of a quantity of one, and no ask. -/
def oneBid (instrument : Instrument) (price : Bytes) : DepthContent where
  instrument
  millis := 1
  range := ⟨1, 1, by decide, by decide⟩
  texts
    | .buy => [(price, ascii "1")]
    | .sell => []

/-- One bid of a hundred ticks. -/
def hundredTicks : DepthContent := oneBid (twoTicks.instruments.head (by decide)) (ascii "1.00")

/-- Its payload with the levels before the symbol, in an envelope. -/
def levelsFirst : List (Bytes × Bytes) :=
  [(ascii "b", ascii "[[\"1.00\",\"1\"]]"), (ascii "U", ascii "1"), (ascii "u", ascii "1"),
    (ascii "E", ascii "1"), (ascii "e", ascii "\"depthUpdate\""), (ascii "s", ascii "\"BTCUSDT\""),
    (ascii "a", ascii "[]")]

def levelsFirstEnvelope : Bytes :=
  objectJson [(ascii "stream", ascii "0"), (ascii "data", objectJson levelsFirst)]

theorem levelsFirst_message : hundredTicks.Message levelsFirstEnvelope := by
  have horder : levelsFirst.Perm
      (hundredTicks.members fun side => levelsJson (hundredTicks.texts side)) := by
    decide +kernel
  have hstream : Extra 1 (ascii "stream", ascii "0") :=
    ⟨by decide +kernel, ⟨[], 1, 1, true⟩, by decide +kernel, rfl⟩
  refine ⟨[], levelsFirstEnvelope, [], white_nil, ?_, white_nil, by simp⟩
  refine .inr ⟨_, [(ascii "stream", ascii "0")], _, payload_json horder, ?_, .swap .., objectText_json ?_⟩
  · simpa using hstream
  · intro x hx
    simp only [List.mem_cons, List.not_mem_nil, or_false] at hx
    obtain rfl | rfl := hx <;>
      exact plainName_of_visible (by simp [ascii]) (by simp [ascii]) (by simp [ascii])

theorem levels_before_symbol_decode : ∃ update,
    decodeUpdate twoTicks 1 levelsFirstEnvelope = .ok update ∧ update.instrument = ⟨0⟩ ∧
      update.eventTime.nanos.toNat = 1 * 1000000 ∧ update.range = ⟨1, 1, by decide, by decide⟩ ∧
      ∀ side, sideLevels side update.updates =
        match side with
        | .buy => [⟨100, 100⟩]
        | .sell => [] := by
  have hdigits : AllDigits [49] ∧ AllDigits [48, 48] ∧ AllDigits [] := by
    simp [AllDigits, DecScan.isDigit]
  have hprice : Multiple centTick (ascii "1.00") 100 :=
    ⟨⟨false, [49], [48, 48], ⟨by decide, hdigits.1, hdigits.2.1, by decide, by decide⟩,
      by decide +kernel⟩, by decide +kernel, by decide⟩
  have hqty : Multiple centTick (ascii "1") 100 :=
    ⟨⟨false, [49], [], ⟨by decide, hdigits.1, hdigits.2.2, by decide, by decide⟩, by decide +kernel⟩,
      by decide +kernel, by decide⟩
  have hlevels : ∀ side, List.Forall₂ (LevelOf hundredTicks.instrument) (hundredTicks.texts side)
      (match side with
        | .buy => [⟨100, 100⟩]
        | .sell => []) := by
    intro side
    cases side with
    | buy => exact .cons ⟨hprice, hqty⟩ .nil
    | sell => exact .nil
  exact update_decodes_in_any_layout twoTicks 1 hundredTicks _ (by decide +kernel) rfl
    (by decide +kernel) (by decide) hlevels (by decide) levelsFirst_message

/-- A hundred ticks with more decimal places than the parser takes. -/
def longPrice : Bytes := ascii "1.0000000000000000000"

def longBid : DepthContent := oneBid (twoTicks.instruments.head (by decide)) longPrice

def largestTick : InstrumentTable :=
  ⟨[⟨⟨0⟩, .binance, .btcUsdt, largestIncrement, centTick, .zero⟩], rfl⟩

/-- As many of the largest ticks as an `i64` can count, with one decimal place. -/
def largestPrice : Bytes := ascii "85070591730234615847396907784232501249.0"

def largestBid : DepthContent := oneBid (largestTick.instruments.head (by decide)) largestPrice

/-- An instrument whose symbol is a quote. -/
def quotedSymbol : InstrumentTable :=
  ⟨[⟨⟨0⟩, .binance, ⟨[34], by decide⟩, centTick, centTick, .zero⟩], rfl⟩

def quotedMessage : Bytes :=
  ascii "\x7b\"e\":\"depthUpdate\",\"E\":1,\"s\":\"\\\"\",\"U\":1,\"u\":1,\"b\":[],\"a\":[]\x7d"

/-- Whole numbers of ticks that are written with more places or digits than there is
room for are refused, and so is a symbol that cannot be written without an escape. -/
theorem long_texts_and_quoted_symbol_refused :
    (decimalValue longPrice = 100 * centTick.toRat ∧ ∃ message, longBid.Message message ∧
      decodeUpdate twoTicks 1 message = .error (.invalidNumber "price" .tooManyDecimals)) ∧
    (decimalValue largestPrice = (2 ^ 63 - 1) * largestIncrement.toRat ∧
      ∃ message, largestBid.Message message ∧
        decodeUpdate largestTick 1 message = .error (.invalidNumber "price" .overflow)) ∧
    decodeUpdate quotedSymbol 1 quotedMessage = .error (.json (.escapedString 30)) := by
  refine ⟨⟨by decide +kernel, _, message_json longBid, by decide +kernel⟩, ⟨by decide +kernel, _,
    message_json largestBid, by decide +kernel⟩, by decide +kernel⟩

end Bowst.Venue
