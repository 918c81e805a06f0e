/-
Bowst.Venue.DepthTheorems — where the levels of a decoded message come from.

A message is laid out once, as its members with what stands behind each name, and
the decoders are followed along this list. What they read of a member, `skip` would
have passed over, so the list does not depend on which members they know.

  §1 Skipping  — a value that was read could have been skipped.
  §2 Texts     — the texts of a level array, wherever it is read.
  §3 Members   — the members of a message.
  §4 Updates   — what `read_object` keeps along the members.
  §5 Snapshots — the same for a snapshot's one object.
  §6 Origin    — whose units the levels are in, and from how many arrays.
-/
import Bowst.Core.ValueTheorems
import Bowst.Venue.Depth
import Bowst.Venue.JsonTheorems

namespace Bowst.Venue

open Bowst.Lib Bowst.Core Bowst.L2

/-! ## §1 Skipping -/

theorem fromJson_eq_ok {α : Type} {res : Except JsonError α} {a : α} :
    fromJson res = .ok a ↔ res = .ok a := by
  cases res <;> simp [fromJson, Except.mapError]

namespace Reader

theorem skip_of_strBytes {r r' : Reader} {text : Bytes} (hdepth : r.depth ≤ maxDepth)
    (h : r.strBytes = .ok (text, r')) : r.skip = .ok r' := by
  obtain ⟨hplain, w, hw, htook, hdepth', hafter⟩ := strBytes_eq_ok.mp h
  have hchars : Chars AnyEscape text := by simpa using chars_append hplain Chars.nil
  exact (skip_eq_ok hdepth).mpr ⟨w, _, hw, scalar_value (.inr (.inr (.inr (.inl ⟨text, hchars, rfl⟩)))),
    htook, fun hn => absurd hn (not_numberToken_cons (by decide) rfl), hdepth', hafter⟩

theorem skip_of_str {r r' : Reader} {text : Bytes} (hdepth : r.depth ≤ maxDepth)
    (h : r.str = .ok (text, r')) : r.skip = .ok r' := by
  obtain ⟨hname, hrest⟩ := str_eq_ok.mp h
  exact skip_of_strBytes hdepth (strBytes_eq_ok.mpr ⟨hname.1, hrest⟩)

/-- The digit loop of `u64` goes as far as there are digits. -/
theorem u64Digits_length {start : Nat} : ∀ (bytes : Bytes) {v value digits : Nat},
    u64Digits start v bytes = .ok (value, digits) → digits = (bytes.takeWhile isDigit).length := by
  intro bytes
  induction bytes with
  | nil =>
      intro v value digits h
      cases h
      rfl
  | cons byte bytes ih =>
      intro v value digits h
      rw [u64Digits] at h
      by_cases hdigit : isDigit byte = true
      · rw [if_pos hdigit] at h
        dsimp only at h
        split_ifs at h
        obtain ⟨⟨value', digits'⟩, hrest, h⟩ := except_bind_eq_ok.mp h
        cases h
        rw [List.takeWhile_cons_of_pos hdigit, List.length_cons, ih hrest]
      · rw [if_neg hdigit] at h
        cases h
        rw [List.takeWhile_cons_of_neg hdigit]
        rfl

/-- What would go on with an integer was refused, so its digits are all of a number. -/
theorem skip_of_u64 {r r' : Reader} {value : Nat} (hdepth : r.depth ≤ maxDepth)
    (h : r.u64 = .ok (value, r')) : r.skip = .ok r' := by
  obtain ⟨w, hw, htook, hdepth₀, -, -⟩ := r.skipWhitespace_took
  obtain ⟨⟨value', digits⟩, hdigits, h⟩ := except_bind_eq_ok.mp h
  obtain ⟨back, hsplit, hall, hback⟩ := exists_takeWhile_split isDigit r.skipWhitespace.rest
  have hlen := u64Digits_length _ hdigits
  dsimp only at h
  split_ifs at h with hrefused
  cases h
  simp only [Bool.or_eq_true, decide_eq_true_eq, not_or] at hrefused
  obtain ⟨⟨hsome, -⟩, hnext⟩ := hrefused
  have htook' := took_advance _ hsplit
  rw [← hlen] at htook'
  have hrest : (r.skipWhitespace.advance digits).rest = back :=
    List.append_cancel_left (htook'.rest.symm.trans hsplit)
  have hstop : ∀ b ∈ back.head?, isNumberByte b = false := by
    intro b hb
    have hnot : ¬ (b = 46 ∨ b = 101 ∨ b = 69 ∨ b = 45 ∨ b = 43) := by
      have hpeek : (r.skipWhitespace.advance digits).peek = some b := by rw [peek, hrest]; exact hb
      simpa [hpeek, or_assoc] using hnext
    simp only [not_or] at hnot
    simp [isNumberByte, hback b hb, hnot]
  obtain ⟨d, ds, hcons⟩ := List.exists_cons_of_ne_nil (fun hnil => hsome (by rw [hlen, hnil]; rfl) :
    r.skipWhitespace.rest.takeWhile isDigit ≠ [])
  refine (skip_eq_ok hdepth).mpr ⟨w, _, hw, scalar_value (.inr (.inr (.inr (.inr ?_)))),
    ⟨(htook.trans htook').rest, (htook.trans htook').pos⟩, fun _ => by rw [← hrest] at hstop; exact hstop,
    hdepth₀, rfl⟩
  refine ⟨⟨d, ds, hcons, .inr (hall d (by simp [hcons]))⟩, fun b hb => ?_⟩
  simp [isNumberByte, hall b hb]

/-- The elements of an array, up to its end, each of which could be skipped. -/
inductive ElementsRead : Reader → Reader → Prop
  | closed {r r' : Reader} (h : r.nextElement = .ok (false, r')) : ElementsRead r r'
  | more {r m r₁ r' : Reader} (h : r.nextElement = .ok (true, m)) (hvalue : m.skip = .ok r₁)
      (hrest : ElementsRead r₁ r') : ElementsRead r r'

theorem skipElements_of_read {r r' : Reader} (h : ElementsRead r r') :
    ∀ {rounds : Nat}, r.depth ≤ maxDepth → r.rest.length < rounds →
      skipElements (skipLevels (maxDepth + 1 - r.depth)) rounds r = .ok r' := by
  induction h with
  | closed h =>
      intro rounds _ hrounds
      obtain ⟨rounds, rfl⟩ : ∃ n, rounds = n + 1 := ⟨rounds - 1, by omega⟩
      rw [skipElements, h]
      rfl
  | @more r m r₁ r' h hvalue _ ih =>
      intro rounds hdepth hrounds
      obtain ⟨rounds, rfl⟩ : ∃ n, rounds = n + 1 := ⟨rounds - 1, by omega⟩
      obtain ⟨sep, -, htook, hm, -, -⟩ := (nextMember_more rfl (by decide)).mp h
      obtain ⟨w, v, -, hv, htook', -, hr₁, -⟩ := (skip_eq_ok (by omega)).mp hvalue
      obtain ⟨b, rest, rfl, -⟩ := jsonValue_head hv
      have hlen := congrArg List.length (htook.trans htook').rest
      simp only [List.length_append, List.length_cons] at hlen
      have hlast := @ih rounds (by omega) (by omega)
      rw [skip, hm] at hvalue
      rw [hr₁, hm] at hlast
      rw [skipElements, h]
      show (skipLevels (maxDepth + 1 - r.depth) m >>= _) = _
      rw [hvalue]
      exact hlast

/-- An array whose elements could be skipped. -/
theorem skip_of_array {r r₁ r' : Reader} (hopen : r.beginArray = .ok r₁) (h : ElementsRead r₁ r') :
    r.skip = .ok r' := by
  obtain ⟨hdepth, w, hw, htook, hr₁, hafter⟩ := (enter_eq_ok rfl).mp hopen
  have hrest : r.rest = w ++ 91 :: r₁.rest := by rw [htook.rest]; simp
  have hwhite := skipWhitespace_eq hw hrest (by intro b hb; cases hb; rfl)
  have hagain : r.skipWhitespace.beginArray = .ok r₁ := by
    refine (enter_eq_ok rfl).mpr ⟨by rw [hwhite]; exact hdepth, [], white_nil, ⟨?_, ?_⟩, ?_, hafter⟩
    · rw [hwhite]
      rfl
    · rw [hwhite, htook.pos]
      simp [Nat.add_assoc]
    · rw [hwhite]
      exact hr₁
  have hlevels : maxDepth + 1 - r.depth = (maxDepth + 1 - r₁.depth) + 1 := by omega
  have hpeek : r.skipWhitespace.peek = some 91 := by rw [hwhite]; rfl
  rw [skip, hlevels, skipLevels]
  simp only [hpeek, if_neg (show ¬ (91 : UInt8) = 123 by decide), if_pos]
  refine except_bind_eq_ok.mpr ⟨r₁, hagain, ?_⟩
  exact skipElements_of_read h (by omega) (Nat.lt_succ_self _)

end Reader

/-! ## §2 Texts -/

/-- The two texts of a level, as `readLevel` reads them. -/
def readPair (r : Reader) : Except DecodeError ((Bytes × Bytes) × Reader) := do
  let r ← fromJson r.beginArray
  let (more, r) ← fromJson r.nextElement
  if !more then .error (.unexpectedValue "level")
  else do
    let (price, r) ← fromJson r.strBytes
    let (more, r) ← fromJson r.nextElement
    if !more then .error (.unexpectedValue "level")
    else do
      let (qty, r) ← fromJson r.strBytes
      let (more, r) ← fromJson r.nextElement
      if more then .error (.unexpectedValue "level") else .ok ((price, qty), r)

def readPairs : Nat → Reader → Except DecodeError (List (Bytes × Bytes) × Reader)
  | 0, _ => .error (.json .unexpectedEnd)
  | rounds + 1, r => do
      let (more, r) ← fromJson r.nextElement
      if !more then .ok ([], r)
      else do
        let (pair, r) ← readPair r
        let (pairs, r) ← readPairs rounds r
        .ok (pair :: pairs, r)

/-- The price and quantity texts of the level array at the start of `rest`. -/
def levelTexts (rest : Bytes) : List (Bytes × Bytes) :=
  match (do
    let r ← fromJson (Reader.new rest).beginArray
    readPairs (r.rest.length + 1) r) with
  | .ok (pairs, _) => pairs
  | .error _ => []

/-- A level read from two texts with these increments. -/
def ReadsAs (tick lot : Increment) (pair : Bytes × Bytes) (level : Level) : Prop :=
  exact pair.1 tick "price" = .ok level.price ∧ exact pair.2 lot "qty" = .ok level.qty

theorem exact_sound {text : Bytes} {increment : Increment} {field : String} {units : Int}
    (h : exact text increment field = .ok units) : decimalValue text = units * increment.toRat := by
  unfold exact at h
  cases hparse : increment.parseUnitsBytes text .exact with
  | error err => simp [hparse] at h
  | ok n =>
      simp only [hparse] at h
      cases h
      exact Increment.parseUnitsBytes_exact hparse

/-- The steps of `readPair`. -/
theorem readPair_eq_ok {r r' : Reader} {pair : Bytes × Bytes} : readPair r = .ok (pair, r') ↔
    ∃ r₁ r₂ r₃ r₄ r₅, r.beginArray = .ok r₁ ∧ r₁.nextElement = .ok (true, r₂) ∧
      r₂.strBytes = .ok (pair.1, r₃) ∧ r₃.nextElement = .ok (true, r₄) ∧
      r₄.strBytes = .ok (pair.2, r₅) ∧ r₅.nextElement = .ok (false, r') := by
  constructor
  · intro h
    obtain ⟨r₁, h₁, h⟩ := except_bind_eq_ok.mp h
    obtain ⟨⟨more, r₂⟩, h₂, h⟩ := except_bind_eq_ok.mp h
    cases more with
    | false => simp at h
    | true =>
        obtain ⟨⟨price, r₃⟩, h₃, h⟩ := except_bind_eq_ok.mp h
        obtain ⟨⟨more, r₄⟩, h₄, h⟩ := except_bind_eq_ok.mp h
        cases more with
        | false => simp at h
        | true =>
            obtain ⟨⟨qty, r₅⟩, h₅, h⟩ := except_bind_eq_ok.mp h
            obtain ⟨⟨more, r₆⟩, h₆, h⟩ := except_bind_eq_ok.mp h
            cases more with
            | true => simp at h
            | false =>
                cases h
                exact ⟨r₁, r₂, r₃, r₄, r₅, fromJson_eq_ok.mp h₁, fromJson_eq_ok.mp h₂,
                  fromJson_eq_ok.mp h₃, fromJson_eq_ok.mp h₄, fromJson_eq_ok.mp h₅,
                  fromJson_eq_ok.mp h₆⟩
  · rintro ⟨r₁, r₂, r₃, r₄, r₅, h₁, h₂, h₃, h₄, h₅, h₆⟩
    simp [readPair, h₁, h₂, h₃, h₄, h₅, h₆, fromJson, Except.mapError, bind, Except.bind]

/-- A level is the pair of its texts, converted. -/
theorem readLevel_texts {r r' : Reader} {tick lot : Increment} {level : Level}
    (h : readLevel r tick lot = .ok (level, r')) :
    ∃ pair, readPair r = .ok (pair, r') ∧ ReadsAs tick lot pair level := by
  obtain ⟨r₁, h₁, h⟩ := except_bind_eq_ok.mp h
  obtain ⟨⟨more, r₂⟩, h₂, h⟩ := except_bind_eq_ok.mp h
  cases more with
  | false => simp at h
  | true =>
      obtain ⟨⟨price, r₃⟩, h₃, h⟩ := except_bind_eq_ok.mp h
      obtain ⟨p, hprice, h⟩ := except_bind_eq_ok.mp h
      obtain ⟨⟨more, r₄⟩, h₄, h⟩ := except_bind_eq_ok.mp h
      cases more with
      | false => simp at h
      | true =>
          obtain ⟨⟨qty, r₅⟩, h₅, h⟩ := except_bind_eq_ok.mp h
          obtain ⟨q, hqty, h⟩ := except_bind_eq_ok.mp h
          obtain ⟨⟨more, r₆⟩, h₆, h⟩ := except_bind_eq_ok.mp h
          cases more with
          | true => simp at h
          | false =>
              cases h
              refine ⟨(price, qty), readPair_eq_ok.mpr ⟨r₁, r₂, r₃, r₄, r₅, fromJson_eq_ok.mp h₁,
                fromJson_eq_ok.mp h₂, fromJson_eq_ok.mp h₃, fromJson_eq_ok.mp h₄,
                fromJson_eq_ok.mp h₅, fromJson_eq_ok.mp h₆⟩, hprice, hqty⟩

/-- The loop over levels, along their texts. -/
theorem readLevelsLoop_texts {α : Type} {ofLevel : Level → α} {tick lot : Increment} {limit : Nat} :
    ∀ (rounds : Nat) {out out' : List α} {r r' : Reader},
      readLevelsLoop ofLevel tick lot limit rounds out r = .ok (out', r') →
      ∃ pairs levels, readPairs rounds r = .ok (pairs, r') ∧ out' = out ++ levels.map ofLevel ∧
        List.Forall₂ (ReadsAs tick lot) pairs levels := by
  intro rounds
  induction rounds with
  | zero =>
      intro out out' r r' h
      simp [readLevelsLoop] at h
  | succ rounds ih =>
      intro out out' r r' h
      obtain ⟨⟨more, r₁⟩, hmore, h⟩ := except_bind_eq_ok.mp h
      cases more with
      | false =>
          cases h
          refine ⟨[], [], ?_, by simp, .nil⟩
          rw [readPairs, hmore]
          rfl
      | true =>
          simp only [Bool.not_true, Bool.false_eq_true, if_false] at h
          split_ifs at h
          obtain ⟨⟨level, r₂⟩, hlevel, h⟩ := except_bind_eq_ok.mp h
          obtain ⟨pair, hpair, hreads⟩ := readLevel_texts hlevel
          obtain ⟨pairs, levels, hpairs, rfl, hall⟩ := ih h
          refine ⟨pair :: pairs, level :: levels, ?_, by simp, .cons hreads hall⟩
          rw [readPairs, hmore]
          show (readPair r₁ >>= _) = _
          rw [hpair]
          show (readPairs rounds r₂ >>= _) = _
          rw [hpairs]
          rfl

theorem readPair_skip {r r' : Reader} {pair : Bytes × Bytes} (h : readPair r = .ok (pair, r')) :
    r.skip = .ok r' := by
  obtain ⟨r₁, r₂, r₃, r₄, r₅, h₁, h₂, h₃, h₄, h₅, h₆⟩ := readPair_eq_ok.mp h
  obtain ⟨hdepth, -, -, -, hr₁, -⟩ := (Reader.enter_eq_ok rfl).mp h₁
  obtain ⟨-, -, -, hr₂, -, -⟩ := (Reader.nextMember_more rfl (by decide)).mp h₂
  obtain ⟨-, -, -, -, hr₃, -⟩ := Reader.strBytes_eq_ok.mp h₃
  obtain ⟨-, -, -, hr₄, -, -⟩ := (Reader.nextMember_more rfl (by decide)).mp h₄
  exact Reader.skip_of_array h₁ (.more h₂ (Reader.skip_of_strBytes (by omega) h₃)
    (.more h₄ (Reader.skip_of_strBytes (by omega) h₅) (.closed h₆)))

theorem readPairs_skip : ∀ (rounds : Nat) {r r' : Reader} {pairs : List (Bytes × Bytes)},
    readPairs rounds r = .ok (pairs, r') → r.ElementsRead r' := by
  intro rounds
  induction rounds with
  | zero =>
      intro r r' pairs h
      simp [readPairs] at h
  | succ rounds ih =>
      intro r r' pairs h
      obtain ⟨⟨more, r₁⟩, hmore, h⟩ := except_bind_eq_ok.mp h
      cases more with
      | false =>
          cases h
          exact .closed (fromJson_eq_ok.mp hmore)
      | true =>
          obtain ⟨⟨pair, r₂⟩, hpair, h⟩ := except_bind_eq_ok.mp h
          obtain ⟨⟨pairs', r₃⟩, hpairs, h⟩ := except_bind_eq_ok.mp h
          cases h
          exact .more (fromJson_eq_ok.mp hmore) (readPair_skip hpair) (ih hpairs)

namespace Reader

/-- Readers of the same bytes, the first of them `k` containers deeper. -/
structure Like (k : Nat) (r s : Reader) : Prop where
  rest : r.rest = s.rest
  afterValue : r.afterValue = s.afterValue
  depth : r.depth = s.depth + k

section Like

variable {k : Nat} {r r' s : Reader}

/-- The other reader, behind the same bytes. -/
theorem Like.took {front : Bytes} (hlike : Like k r s) (htook : r.Took front r') (depth : Nat) :
    ∃ s' : Reader, s.Took front s' ∧ r'.rest = s'.rest ∧ s'.afterValue = r'.afterValue ∧
      s'.depth = depth := by
  refine ⟨⟨r'.rest, s.pos + front.length, depth, r'.afterValue⟩, ⟨?_, rfl⟩, rfl, rfl, rfl⟩
  rw [← hlike.rest]
  exact htook.rest

theorem Like.beginArray (hlike : Like k r s) (h : r.beginArray = .ok r') :
    ∃ s', s.beginArray = .ok s' ∧ Like k r' s' ∧ s'.depth = s.depth + 1 := by
  obtain ⟨hroom, w, hw, htook, hdepth, hafter⟩ := (enter_eq_ok rfl).mp h
  obtain ⟨s', htook', hrest, hafter', hdepth'⟩ := hlike.took htook (s.depth + 1)
  have hdeeper := hlike.depth
  exact ⟨s', (enter_eq_ok rfl).mpr ⟨by omega, w, hw, htook', hdepth', hafter'.trans hafter⟩,
    ⟨hrest, hafter'.symm, by omega⟩, hdepth'⟩

theorem Like.nextElement (hlike : Like k r s) (hinside : 0 < s.depth) {more : Bool}
    (h : r.nextElement = .ok (more, r')) : ∃ s', s.nextElement = .ok (more, s') ∧ Like k r' s' ∧
      s'.depth = if more then s.depth else s.depth - 1 := by
  have hdeeper := hlike.depth
  cases more with
  | false =>
      obtain ⟨w, hw, htook, hdepth, hafter⟩ := (nextMember_closed rfl).mp h
      obtain ⟨s', htook', hrest, hafter', hdepth'⟩ := hlike.took htook (s.depth - 1)
      exact ⟨s', (nextMember_closed rfl).mpr ⟨w, hw, htook', hdepth', hafter'.trans hafter⟩,
        ⟨hrest, hafter'.symm, by omega⟩, hdepth'⟩
  | true =>
      obtain ⟨sep, hsep, htook, hdepth, hafter, hstop⟩ := (nextMember_more rfl (by decide)).mp h
      obtain ⟨s', htook', hrest, hafter', hdepth'⟩ := hlike.took htook s.depth
      rw [hlike.afterValue] at hsep hafter hstop
      rw [hrest] at hstop
      exact ⟨s', (nextMember_more rfl (by decide)).mpr
        ⟨sep, hsep, htook', hdepth', hafter'.trans hafter, hstop⟩,
        ⟨hrest, hafter'.symm, by omega⟩, hdepth'⟩

theorem Like.strBytes (hlike : Like k r s) {text : Bytes} (h : r.strBytes = .ok (text, r')) :
    ∃ s', s.strBytes = .ok (text, s') ∧ Like k r' s' ∧ s'.depth = s.depth := by
  have hdeeper := hlike.depth
  obtain ⟨hplain, w, hw, htook, hdepth, hafter⟩ := strBytes_eq_ok.mp h
  obtain ⟨s', htook', hrest, hafter', hdepth'⟩ := hlike.took htook s.depth
  exact ⟨s', strBytes_eq_ok.mpr ⟨hplain, w, hw, htook', hdepth', hafter'.trans hafter⟩,
    ⟨hrest, hafter'.symm, by omega⟩, hdepth'⟩

theorem Like.readPair (hlike : Like k r s) {pair : Bytes × Bytes}
    (h : readPair r = .ok (pair, r')) :
    ∃ s', Venue.readPair s = .ok (pair, s') ∧ Like k r' s' ∧ s'.depth = s.depth := by
  obtain ⟨r₁, r₂, r₃, r₄, r₅, h₁, h₂, h₃, h₄, h₅, h₆⟩ := readPair_eq_ok.mp h
  obtain ⟨s₁, g₁, hl₁, hd₁⟩ := hlike.beginArray h₁
  obtain ⟨s₂, g₂, hl₂, hd₂⟩ := hl₁.nextElement (by omega) h₂
  rw [if_pos rfl] at hd₂
  obtain ⟨s₃, g₃, hl₃, hd₃⟩ := hl₂.strBytes h₃
  obtain ⟨s₄, g₄, hl₄, hd₄⟩ := hl₃.nextElement (by omega) h₄
  rw [if_pos rfl] at hd₄
  obtain ⟨s₅, g₅, hl₅, hd₅⟩ := hl₄.strBytes h₅
  obtain ⟨s₆, g₆, hl₆, hd₆⟩ := hl₅.nextElement (by omega) h₆
  rw [if_neg Bool.false_ne_true] at hd₆
  exact ⟨s₆, readPair_eq_ok.mpr ⟨s₁, s₂, s₃, s₄, s₅, g₁, g₂, g₃, g₄, g₅, g₆⟩, hl₆, by omega⟩

end Like

theorem like_readPairs {k : Nat} : ∀ (rounds : Nat) {r r' s : Reader} {pairs : List (Bytes × Bytes)},
    Like k r s → 0 < s.depth → readPairs rounds r = .ok (pairs, r') →
      ∃ s', readPairs rounds s = .ok (pairs, s') := by
  intro rounds
  induction rounds with
  | zero =>
      intro r r' s pairs _ _ h
      simp [readPairs] at h
  | succ rounds ih =>
      intro r r' s pairs hlike hinside h
      obtain ⟨⟨more, r₁⟩, hmore, h⟩ := except_bind_eq_ok.mp h
      obtain ⟨s₁, gmore, hl₁, hd₁⟩ := hlike.nextElement hinside (fromJson_eq_ok.mp hmore)
      rw [readPairs, fromJson_eq_ok.mpr gmore]
      cases more with
      | false =>
          cases h
          exact ⟨s₁, rfl⟩
      | true =>
          rw [if_pos rfl] at hd₁
          obtain ⟨⟨pair, r₂⟩, hpair, h⟩ := except_bind_eq_ok.mp h
          obtain ⟨⟨pairs', r₃⟩, hpairs, h⟩ := except_bind_eq_ok.mp h
          cases h
          obtain ⟨s₂, gpair, hl₂, hd₂⟩ := hl₁.readPair hpair
          obtain ⟨s₃, gpairs⟩ := ih hl₂ (by omega) hpairs
          refine ⟨s₃, ?_⟩
          show (Venue.readPair s₁ >>= _) = _
          rw [gpair]
          show (readPairs rounds s₂ >>= _) = _
          rw [gpairs]
          rfl

end Reader

/-- The texts of an array do not depend on the reader that comes upon it. -/
theorem levelTexts_eq {r r₁ r' : Reader} {pairs : List (Bytes × Bytes)} (hopen : r.beginArray = .ok r₁)
    (h : readPairs (r₁.rest.length + 1) r₁ = .ok (pairs, r')) : levelTexts r.rest = pairs := by
  obtain ⟨-, w, hw, htook, hdepth, hafter⟩ := (Reader.enter_eq_ok rfl).mp hopen
  let s₁ : Reader := ⟨r₁.rest, (w ++ [91]).length, 1, false⟩
  have hopen' : (Reader.new r.rest).beginArray = .ok s₁ :=
    (Reader.enter_eq_ok rfl).mpr
      ⟨show 0 < 32 by decide, w, hw, ⟨htook.rest, by simp [s₁, Reader.new]⟩, rfl, rfl⟩
  have hlike : Reader.Like r.depth r₁ s₁ := ⟨rfl, hafter, by rw [hdepth, Nat.add_comm]⟩
  obtain ⟨s', hpairs⟩ := Reader.like_readPairs _ hlike Nat.one_pos h
  have hread : (do
      let r ← fromJson (Reader.new r.rest).beginArray
      readPairs (r.rest.length + 1) r) = .ok (pairs, s') := by
    rw [fromJson_eq_ok.mpr hopen']
    exact hpairs
  rw [levelTexts, hread]

/-- A level array was read: its texts with the increments, and behind it. -/
theorem readLevelsInto_texts {α : Type} {ofLevel : Level → α} {tick lot : Increment} {limit : Nat}
    {out out' : List α} {r r' : Reader}
    (h : (do
      let r ← fromJson r.beginArray
      readLevelsLoop ofLevel tick lot limit (r.rest.length + 1) out r) = .ok (out', r')) :
    r.skip = .ok r' ∧ ∃ levels, out' = out ++ levels.map ofLevel ∧
      List.Forall₂ (ReadsAs tick lot) (levelTexts r.rest) levels := by
  obtain ⟨r₁, hopen, h⟩ := except_bind_eq_ok.mp h
  obtain ⟨pairs, levels, hpairs, hout, hall⟩ := readLevelsLoop_texts _ h
  refine ⟨Reader.skip_of_array (fromJson_eq_ok.mp hopen) (readPairs_skip _ hpairs), levels, hout, ?_⟩
  rw [levelTexts_eq (fromJson_eq_ok.mp hopen) hpairs]
  exact hall

/-! ## §3 Members -/

/-- A member of an object: its name, and the message from its value on. -/
structure Entry where
  name : Bytes
  rest : Bytes
  deriving DecidableEq, Repr

/-- The members of an object, given what each of them counts for. -/
def walkMembers (member : Bytes → Reader → Except JsonError (List Entry × Reader)) :
    Nat → Reader → Except JsonError (List Entry × Reader)
  | 0, _ => .error .unexpectedEnd
  | rounds + 1, r => do
      let (key, r) ← r.nextKey
      match key with
      | none => .ok ([], r)
      | some key => do
          let (front, r) ← member key r
          let (back, r) ← walkMembers member rounds r
          .ok (front ++ back, r)

/-- A member counts for itself. -/
def walkMember (key : Bytes) (r : Reader) : Except JsonError (List Entry × Reader) := do
  let r' ← r.skip
  .ok ([⟨key, r.rest⟩], r')

def walkObject (r : Reader) : Except JsonError (List Entry × Reader) := do
  let r ← r.beginObject
  walkMembers walkMember (r.rest.length + 1) r

/-- `"data"` counts for the members in it. -/
def walkEnvelopeMember (key : Bytes) (r : Reader) : Except JsonError (List Entry × Reader) :=
  if key = ascii "data" then walkObject r else walkMember key r

def walkEnvelope (r : Reader) : Except JsonError (List Entry × Reader) := do
  let r ← r.beginObject
  walkMembers walkEnvelopeMember (r.rest.length + 1) r

/-- The members of a document that is an object. -/
def objectMembers (message : Bytes) : List Entry :=
  match walkObject (Reader.new message) with
  | .ok (entries, _) => entries
  | .error _ => []

/-- The members of a stream message, with those in an envelope's `"data"` in its
place. -/
def streamMembers (message : Bytes) : List Entry :=
  match walkEnvelope (Reader.new message) with
  | .ok (entries, _) => entries
  | .error _ => []

section Walk

variable {State : Type} {depth : Nat} {P : List Entry → State → Prop}
  {read : Bytes → State → Reader → Except DecodeError (State × Reader)}
  {walk : Bytes → Reader → Except JsonError (List Entry × Reader)}
  {loop : Nat → State → Reader → Except DecodeError (State × Reader)}

/-- A loop that reads members, along the members: what every member keeps, the loop
keeps. -/
theorem loop_along (hzero : ∀ {st r out}, loop 0 st r ≠ .ok out)
    (hsucc : ∀ {rounds st r st' r'}, loop (rounds + 1) st r = .ok (st', r') →
      (r.nextKey = .ok (none, r') ∧ st' = st) ∨ ∃ key m st₁ r₁, r.nextKey = .ok (some key, m) ∧
        read key st m = .ok (st₁, r₁) ∧ loop rounds st₁ r₁ = .ok (st', r'))
    (hstep : ∀ {entries key st m st' r'}, m.depth = depth → P entries st →
      read key st m = .ok (st', r') →
      ∃ more, walk key m = .ok (more, r') ∧ P (entries ++ more) st' ∧ r'.depth = depth) :
    ∀ (rounds : Nat) {entries : List Entry} {st st' : State} {r r' : Reader}, r.depth = depth →
      P entries st → loop rounds st r = .ok (st', r') →
      ∃ more, walkMembers walk rounds r = .ok (more, r') ∧ P (entries ++ more) st' ∧
        r'.depth = depth - 1 := by
  intro rounds
  induction rounds with
  | zero =>
      intro entries st st' r r' _ _ h
      exact absurd h hzero
  | succ rounds ih =>
      intro entries st st' r r' hdepth hP h
      rcases hsucc h with ⟨hkey, rfl⟩ | ⟨key, m, st₁, r₁, hkey, hread, h⟩
      · obtain ⟨-, -, -, hdepth', -⟩ := Reader.nextKey_none.mp hkey
        refine ⟨[], ?_, by simpa using hP, by rw [hdepth', hdepth]⟩
        rw [walkMembers, hkey]
        rfl
      · obtain ⟨-, -, -, -, -, -, hm, -⟩ := Reader.nextKey_some.mp hkey
        obtain ⟨front, hwalk, hP₁, hr₁⟩ := hstep (hm.trans hdepth) hP hread
        obtain ⟨back, hback, hP', hdepth'⟩ := ih hr₁ hP₁ h
        refine ⟨front ++ back, ?_, by simpa using hP', hdepth'⟩
        rw [walkMembers, hkey]
        show (walk key m >>= _) = _
        rw [hwalk]
        show (walkMembers walk rounds r₁ >>= _) = _
        rw [hback]
        rfl

end Walk

theorem skip_depth {r r' : Reader} (hdepth : r.depth ≤ maxDepth) (h : r.skip = .ok r') :
    r'.depth = r.depth := by
  obtain ⟨-, -, -, -, -, -, hdepth', -⟩ := (Reader.skip_eq_ok hdepth).mp h
  exact hdepth'

theorem walkMember_eq {key : Bytes} {r r' : Reader} (h : r.skip = .ok r') :
    walkMember key r = .ok ([⟨key, r.rest⟩], r') := by
  rw [walkMember, h]
  rfl

/-! ## §4 Updates -/

/-- The symbol at the start of `rest`. -/
def symbolAt (rest : Bytes) : Option Bytes :=
  match (Reader.new rest).str with
  | .ok (symbol, _) => some symbol
  | .error _ => none

theorem symbolAt_eq {r r' : Reader} {symbol : Bytes} (h : r.str = .ok (symbol, r')) :
    symbolAt r.rest = some symbol := by
  obtain ⟨hname, w, hw, htook, -, -⟩ := Reader.str_eq_ok.mp h
  have hread : (Reader.new r.rest).str = .ok (symbol, ⟨r'.rest, _, 0, true⟩) :=
    Reader.str_eq_ok.mpr ⟨hname, w, hw, ⟨htook.rest, rfl⟩, rfl, rfl⟩
  rw [symbolAt, hread]

/-- The levels of one side among updates. -/
def sideLevels (side : Side) (updates : List LevelUpdate) : List Level :=
  (updates.filter fun u => u.side = side).map fun u => ⟨u.price, u.qty⟩

theorem sideLevels_append_same (side : Side) (updates : List LevelUpdate) (levels : List Level) :
    sideLevels side (updates ++ levels.map fun level => ⟨side, level.price, level.qty⟩) =
      sideLevels side updates ++ levels := by
  simp [sideLevels, List.filter_map, Function.comp_def]

theorem sideLevels_append_other {side other : Side} (hne : side ≠ other) (updates : List LevelUpdate)
    (levels : List Level) :
    sideLevels other (updates ++ levels.map fun level => ⟨side, level.price, level.qty⟩) =
      sideLevels other updates := by
  simp [sideLevels, List.filter_map, Function.comp_def, hne]

section Updates

variable (instruments : InstrumentTable)

/-- The instrument that the last symbol among the members names. -/
def namedBy (entries : List Entry) : Option Instrument :=
  (entries.filter fun e => e.name = ascii "s").getLast?.bind fun e =>
    (symbolAt e.rest).bind (instruments.find .binance)

theorem namedBy_snoc (entries : List Entry) (e : Entry) : namedBy instruments (entries ++ [e]) =
    if e.name = ascii "s" then (symbolAt e.rest).bind (instruments.find .binance)
    else namedBy instruments entries := by
  unfold namedBy
  by_cases h : e.name = ascii "s" <;> simp [h]

/-- A side's array among the members: the only one of its name. -/
structure SideAt (side : Side) (front : List Entry) (e : Entry) (back entries : List Entry) : Prop where
  split : entries = front ++ e :: back
  name : e.name = ascii (sideName side)
  front : ∀ x ∈ front, x.name ≠ ascii (sideName side)
  back : ∀ x ∈ back, x.name ≠ ascii (sideName side)

/-- What the decoder has of one side behind the members `entries`. -/
inductive SideKept (side : Side) (entries : List Entry) (fields : Fields) : Prop
  | absent (hentries : ∀ x ∈ entries, x.name ≠ ascii (sideName side))
      (hdeferred : fields.deferred side = none) (hread : fields.sidesRead side = false)
      (hupdates : sideLevels side fields.updates = [])
  | deferred {front : List Entry} {e : Entry} {back : List Entry}
      (hentries : SideAt side front e back entries) (hnamed : namedBy instruments front = none)
      (hdeferred : fields.deferred side = some e.rest) (hread : fields.sidesRead side = false)
      (hupdates : sideLevels side fields.updates = [])
  | read {front : List Entry} {e : Entry} {back : List Entry} {instrument : Instrument}
      (hentries : SideAt side front e back entries)
      (hnamed : namedBy instruments front = some instrument)
      (hdeferred : fields.deferred side = none) (hread : fields.sidesRead side = true)
      (hupdates : List.Forall₂ (ReadsAs instrument.tick instrument.lot) (levelTexts e.rest)
        (sideLevels side fields.updates))

/-- What the decoder has behind the members `entries`. -/
structure FieldsKept (entries : List Entry) (fields : Fields) : Prop where
  instrument : fields.instrument = namedBy instruments entries
  sides : ∀ side, SideKept instruments side entries fields

variable {instruments}

theorem SideAt.snoc {side : Side} {front back entries : List Entry} {e x : Entry}
    (h : SideAt side front e back entries) (hx : x.name ≠ ascii (sideName side)) :
    SideAt side front e (back ++ [x]) (entries ++ [x]) := by
  refine ⟨by simp [h.split], h.name, h.front, ?_⟩
  intro y hy
  rcases List.mem_append.mp hy with hy | hy
  · exact h.back y hy
  · rw [List.mem_singleton.mp hy]
    exact hx

/-- A member of another name leaves a side as it was. -/
theorem SideKept.snoc {side : Side} {entries : List Entry} {fields fields' : Fields} {x : Entry}
    (h : SideKept instruments side entries fields) (hx : x.name ≠ ascii (sideName side))
    (hdeferred : fields'.deferred side = fields.deferred side)
    (hread : fields'.sidesRead side = fields.sidesRead side)
    (hupdates : sideLevels side fields'.updates = sideLevels side fields.updates) :
    SideKept instruments side (entries ++ [x]) fields' := by
  cases h with
  | absent hentries hd hr hu =>
      refine .absent ?_ (hdeferred.trans hd) (hread.trans hr) (hupdates.trans hu)
      intro y hy
      rcases List.mem_append.mp hy with hy | hy
      · exact hentries y hy
      · rw [List.mem_singleton.mp hy]
        exact hx
  | deferred hentries hn hd hr hu =>
      exact .deferred (hentries.snoc hx) hn (hdeferred.trans hd) (hread.trans hr) (hupdates.trans hu)
  | read hentries hn hd hr hu =>
      exact .read (hentries.snoc hx) hn (hdeferred.trans hd) (hread.trans hr) (by rwa [hupdates])

theorem sideName_ne {side other : Side} (h : side ≠ other) :
    ascii (sideName side) ≠ ascii (sideName other) := by
  cases side <;> cases other
  · exact absurd rfl h
  · decide +kernel
  · decide +kernel
  · exact absurd rfl h

theorem sideName_ne_symbol (side : Side) : ascii (sideName side) ≠ ascii "s" := by
  cases side <;> decide +kernel

theorem SideAt.last {side : Side} {entries : List Entry} {rest : Bytes}
    (h : ∀ x ∈ entries, x.name ≠ ascii (sideName side)) :
    SideAt side entries ⟨ascii (sideName side), rest⟩ [] (entries ++ [⟨ascii (sideName side), rest⟩]) :=
  ⟨rfl, rfl, h, by simp⟩

/-- A side's array is read with the instrument at hand. -/
theorem readSide_levels {limit : Nat} {r r' : Reader} {side : Side} {instrument : Instrument}
    {fields fields' : Fields} (h : readSide limit r side instrument fields = .ok (fields', r')) :
    r.skip = .ok r' ∧ ∃ levels, fields' = { fields with
        updates := fields.updates ++ levels.map fun level => ⟨side, level.price, level.qty⟩ } ∧
      List.Forall₂ (ReadsAs instrument.tick instrument.lot) (levelTexts r.rest) levels := by
  obtain ⟨⟨updates, r₁⟩, hread, h⟩ := except_bind_eq_ok.mp h
  cases h
  obtain ⟨hskip, levels, rfl, hall⟩ := readLevelsInto_texts hread
  exact ⟨hskip, levels, rfl, hall⟩

/-- A side that was not there yet: read if there is an instrument, kept for later if
not. -/
theorem readSideMember_kept {limit : Nat} {side : Side} {entries : List Entry}
    {fields fields' : Fields} {r r' : Reader} (hkept : FieldsKept instruments entries fields)
    (h : readSideMember limit side fields r = .ok (fields', r')) : r.skip = .ok r' ∧
      FieldsKept instruments (entries ++ [⟨ascii (sideName side), r.rest⟩]) fields' := by
  have hnamed := namedBy_snoc instruments entries ⟨ascii (sideName side), r.rest⟩
  rw [if_neg (sideName_ne_symbol side)] at hnamed
  unfold readSideMember at h
  by_cases hseen : (fields.sidesRead side || (fields.deferred side).isSome) = true
  · simp [hseen] at h
  rw [if_neg hseen] at h
  simp only [Bool.or_eq_true, not_or, Bool.not_eq_true, Option.isSome_eq_false_iff,
    Option.isNone_iff_eq_none] at hseen
  -- Only a side that is absent has neither mark.
  obtain ⟨habsent, hupdates⟩ : (∀ x ∈ entries, x.name ≠ ascii (sideName side)) ∧
      sideLevels side fields.updates = [] := by
    cases hkept.sides side with
    | absent hentries _ _ hu => exact ⟨hentries, hu⟩
    | deferred _ _ hd _ _ => simp [hd] at hseen
    | read _ _ _ hr _ => simp [hr] at hseen
  cases hinstrument : fields.instrument with
  | some instrument =>
      simp only [hinstrument] at h
      obtain ⟨⟨fields₁, r₁⟩, hread, h⟩ := except_bind_eq_ok.mp h
      cases h
      obtain ⟨hskip, levels, rfl, hall⟩ := readSide_levels hread
      refine ⟨hskip, by rw [hnamed]; exact hkept.instrument, fun other => ?_⟩
      by_cases hother : side = other
      · subst hother
        refine .read (SideAt.last habsent) (hkept.instrument.symm.trans hinstrument) hseen.2
          (by simp) ?_
        rw [sideLevels_append_same, hupdates]
        exact hall
      · refine (hkept.sides other).snoc (sideName_ne hother) rfl ?_ ?_
        · simp [Function.update_of_ne (Ne.symm hother)]
        · exact sideLevels_append_other hother _ _
  | none =>
      simp only [hinstrument] at h
      obtain ⟨r₁, hskip, h⟩ := except_bind_eq_ok.mp h
      cases h
      refine ⟨fromJson_eq_ok.mp hskip, ?_, fun other => ?_⟩
      · rw [hnamed, ← hkept.instrument, hinstrument]
      by_cases hother : side = other
      · subst hother
        exact .deferred (SideAt.last habsent) (hkept.instrument.symm.trans hinstrument) (by simp)
          hseen.1 hupdates
      · refine (hkept.sides other).snoc (sideName_ne hother) ?_ rfl rfl
        simp [Function.update_of_ne (Ne.symm hother)]

/-- A member that is neither the symbol nor a side. -/
theorem FieldsKept.other {entries : List Entry} {fields fields' : Fields} {name rest : Bytes}
    (hkept : FieldsKept instruments entries fields)
    (hname : name ≠ ascii "s" ∧ name ≠ ascii "b" ∧ name ≠ ascii "a")
    (hinstrument : fields'.instrument = fields.instrument)
    (hdeferred : fields'.deferred = fields.deferred) (hread : fields'.sidesRead = fields.sidesRead)
    (hupdates : fields'.updates = fields.updates) :
    FieldsKept instruments (entries ++ [⟨name, rest⟩]) fields' := by
  obtain ⟨hsymbol, hbuy, hsell⟩ := hname
  refine ⟨?_, fun side => ?_⟩
  · rw [namedBy_snoc, if_neg hsymbol, hinstrument]
    exact hkept.instrument
  · refine (hkept.sides side).snoc ?_ (by rw [hdeferred]) (by rw [hread]) (by rw [hupdates])
    cases side
    · exact hbuy
    · exact hsell

/-- One member of a payload. -/
theorem readMember_kept {limit : Nat} {key : Bytes} {entries : List Entry} {fields fields' : Fields}
    {r r' : Reader} (hdepth : r.depth ≤ maxDepth) (hkept : FieldsKept instruments entries fields)
    (h : readMember instruments limit key fields r = .ok (fields', r')) :
    r.skip = .ok r' ∧ FieldsKept instruments (entries ++ [⟨key, r.rest⟩]) fields' := by
  unfold readMember at h
  split_ifs at h with he hE hs hU hu hb ha
  · obtain ⟨⟨event, r₁⟩, hstr, h⟩ := except_bind_eq_ok.mp h
    dsimp only at h
    split_ifs at h
    cases h
    refine ⟨Reader.skip_of_str hdepth (fromJson_eq_ok.mp hstr), hkept.other ?_ rfl rfl rfl rfl⟩
    rw [he]
    decide +kernel
  · obtain ⟨⟨time, r₁⟩, hu64, h⟩ := except_bind_eq_ok.mp h
    cases h
    refine ⟨Reader.skip_of_u64 hdepth (fromJson_eq_ok.mp hu64), hkept.other ?_ rfl rfl rfl rfl⟩
    rw [hE]
    decide +kernel
  · obtain ⟨⟨symbol, r₁⟩, hstr, h⟩ := except_bind_eq_ok.mp h
    dsimp only at h
    cases hfind : instruments.find .binance symbol with
    | none => simp [hfind] at h
    | some instrument =>
        simp only [hfind] at h
        cases h
        have hsymbol := symbolAt_eq (fromJson_eq_ok.mp hstr)
        refine ⟨Reader.skip_of_str hdepth (fromJson_eq_ok.mp hstr), ?_, fun side => ?_⟩
        · rw [namedBy_snoc, if_pos hs, hsymbol, Option.bind_some, hfind]
        · refine (hkept.sides side).snoc ?_ rfl rfl rfl
          rw [hs]
          exact (sideName_ne_symbol side).symm
  · obtain ⟨⟨first, r₁⟩, hu64, h⟩ := except_bind_eq_ok.mp h
    cases h
    refine ⟨Reader.skip_of_u64 hdepth (fromJson_eq_ok.mp hu64), hkept.other ?_ rfl rfl rfl rfl⟩
    rw [hU]
    decide +kernel
  · obtain ⟨⟨last, r₁⟩, hu64, h⟩ := except_bind_eq_ok.mp h
    cases h
    refine ⟨Reader.skip_of_u64 hdepth (fromJson_eq_ok.mp hu64), hkept.other ?_ rfl rfl rfl rfl⟩
    rw [hu]
    decide +kernel
  · rw [hb]
    exact readSideMember_kept hkept h
  · rw [ha]
    exact readSideMember_kept hkept h
  · obtain ⟨r₁, hskip, h⟩ := except_bind_eq_ok.mp h
    cases h
    exact ⟨fromJson_eq_ok.mp hskip, hkept.other ⟨hs, hb, ha⟩ rfl rfl rfl rfl⟩

/-- A member, along the members. -/
theorem readMember_along {limit depth : Nat} (hdepth : depth ≤ maxDepth) {entries : List Entry}
    {key : Bytes} {fields fields' : Fields} {m r' : Reader} (hm : m.depth = depth)
    (hkept : FieldsKept instruments entries fields)
    (h : readMember instruments limit key fields m = .ok (fields', r')) :
    ∃ more, walkMember key m = .ok (more, r') ∧ FieldsKept instruments (entries ++ more) fields' ∧
      r'.depth = depth := by
  obtain ⟨hskip, hkept'⟩ := readMember_kept (by omega) hkept h
  exact ⟨_, walkMember_eq hskip, hkept', (skip_depth (by omega) hskip).trans hm⟩

/-- One round of a loop over members, whatever is collected. -/
theorem memberRound_eq_ok {φ : Type} {member : Bytes → φ → Reader → Except DecodeError (φ × Reader)}
    {loop : φ → Reader → Except DecodeError (φ × Reader)} {fields fields' : φ} {r r' : Reader}
    (h : (do
      let (key, r) ← fromJson r.nextKey
      match key with
      | none => .ok (fields, r)
      | some key => do
          let (fields, r) ← member key fields r
          loop fields r) = .ok (fields', r')) :
    (r.nextKey = .ok (none, r') ∧ fields' = fields) ∨ ∃ key m fields₁ r₁,
      r.nextKey = .ok (some key, m) ∧ member key fields m = .ok (fields₁, r₁) ∧
        loop fields₁ r₁ = .ok (fields', r') := by
  obtain ⟨⟨key, m⟩, hkey, h⟩ := except_bind_eq_ok.mp h
  cases key with
  | none =>
      cases h
      exact .inl ⟨fromJson_eq_ok.mp hkey, rfl⟩
  | some key =>
      obtain ⟨⟨fields₁, r₁⟩, hmember, h⟩ := except_bind_eq_ok.mp h
      exact .inr ⟨key, m, fields₁, r₁, fromJson_eq_ok.mp hkey, hmember, h⟩

theorem readMembers_succ {member : Bytes → Fields → Reader → Except DecodeError (Fields × Reader)}
    {rounds : Nat} {fields fields' : Fields} {r r' : Reader}
    (h : readMembers member (rounds + 1) fields r = .ok (fields', r')) :
    (r.nextKey = .ok (none, r') ∧ fields' = fields) ∨ ∃ key m fields₁ r₁,
      r.nextKey = .ok (some key, m) ∧ member key fields m = .ok (fields₁, r₁) ∧
        readMembers member rounds fields₁ r₁ = .ok (fields', r') :=
  memberRound_eq_ok h

theorem readMembers_zero {member : Bytes → Fields → Reader → Except DecodeError (Fields × Reader)}
    {fields : Fields} {r : Reader} {out : Fields × Reader} :
    readMembers member 0 fields r ≠ .ok out := by
  simp [readMembers]

/-- A payload, along its members. -/
theorem readPayload_along {limit : Nat} {entries : List Entry} {fields fields' : Fields}
    {r r' : Reader} (hkept : FieldsKept instruments entries fields)
    (h : readPayload instruments limit fields r = .ok (fields', r')) :
    ∃ more, walkObject r = .ok (more, r') ∧ FieldsKept instruments (entries ++ more) fields' ∧
      r'.depth = r.depth := by
  obtain ⟨r₁, hopen, h⟩ := except_bind_eq_ok.mp h
  obtain ⟨hroom, -, -, -, hdepth, -⟩ := (Reader.enter_eq_ok rfl).mp (fromJson_eq_ok.mp hopen)
  obtain ⟨more, hwalk, hkept', hdepth'⟩ := loop_along readMembers_zero readMembers_succ
    (fun hm hk hread => readMember_along (by omega) hm hk hread) _ hdepth hkept h
  refine ⟨more, ?_, hkept', by omega⟩
  rw [walkObject, fromJson_eq_ok.mp hopen]
  exact hwalk

/-- A stream message, along its members. -/
theorem readEnvelope_along {limit : Nat} {fields' : Fields} {r r' : Reader}
    (h : readEnvelope instruments limit .empty r = .ok (fields', r')) :
    ∃ entries, walkEnvelope r = .ok (entries, r') ∧ FieldsKept instruments entries fields' := by
  obtain ⟨r₁, hopen, h⟩ := except_bind_eq_ok.mp h
  obtain ⟨hroom, -, -, -, hdepth, -⟩ := (Reader.enter_eq_ok rfl).mp (fromJson_eq_ok.mp hopen)
  have hempty : FieldsKept instruments [] Fields.empty :=
    ⟨rfl, fun side => .absent (by simp) rfl rfl rfl⟩
  have hstep : ∀ {entries : List Entry} {key : Bytes} {fields : Fields} {m : Reader} {fields' : Fields}
      {r' : Reader}, m.depth = r.depth + 1 → FieldsKept instruments entries fields →
      (if key = ascii "data" then readPayload instruments limit fields m
        else readMember instruments limit key fields m) = .ok (fields', r') →
      ∃ more, walkEnvelopeMember key m = .ok (more, r') ∧ FieldsKept instruments (entries ++ more) fields' ∧
        r'.depth = r.depth + 1 := by
    intro entries key fields m fields' r' hm hkept hread
    unfold walkEnvelopeMember
    by_cases hdata : key = ascii "data"
    · rw [if_pos hdata] at hread ⊢
      obtain ⟨more, hwalk, hkept', hdepth'⟩ := readPayload_along hkept hread
      exact ⟨more, hwalk, hkept', hdepth'.trans hm⟩
    · rw [if_neg hdata] at hread ⊢
      exact readMember_along (by omega) hm hkept hread
  obtain ⟨more, hwalk, hkept', -⟩ := loop_along readMembers_zero readMembers_succ hstep _ hdepth
    hempty h
  refine ⟨more, ?_, hkept'⟩
  rw [walkEnvelope, fromJson_eq_ok.mp hopen]
  exact hwalk

/-- A side at the end of a message: its one array, in the increments of the symbol
before it, or of `instrument` if there is none. -/
def SideDone (instruments : InstrumentTable) (side : Side) (instrument : Instrument)
    (entries : List Entry) (updates : List LevelUpdate) : Prop :=
  ∃ front e back, SideAt side front e back entries ∧
    List.Forall₂ (ReadsAs ((namedBy instruments front).getD instrument).tick
      ((namedBy instruments front).getD instrument).lot) (levelTexts e.rest) (sideLevels side updates)

theorem finishSide_done {limit : Nat} {side : Side} {instrument : Instrument} {entries : List Entry}
    {fields fields' : Fields} (hside : SideKept instruments side entries fields)
    (h : finishSide limit side instrument fields = .ok fields') :
    SideDone instruments side instrument entries fields'.updates ∧
      fields'.deferred = fields.deferred ∧ fields'.sidesRead = fields.sidesRead ∧
      ∀ other, side ≠ other → sideLevels other fields'.updates = sideLevels other fields.updates := by
  unfold finishSide at h
  cases hside with
  | absent _ hdeferred hread _ => simp [hdeferred, hread] at h
  | @deferred front e back hentries hnamed hdeferred hread hupdates =>
      simp only [hdeferred] at h
      obtain ⟨⟨fields₁, r₁⟩, hside, h⟩ := except_bind_eq_ok.mp h
      cases h
      obtain ⟨-, levels, rfl, hall⟩ := readSide_levels hside
      refine ⟨⟨front, e, back, hentries, ?_⟩, rfl, rfl, fun other hother => ?_⟩
      · rw [hnamed, sideLevels_append_same, hupdates]
        exact hall
      · exact sideLevels_append_other hother _ _
  | @read front e back other hentries hnamed hdeferred hread hupdates =>
      simp only [hdeferred, hread] at h
      cases h
      refine ⟨⟨front, e, back, hentries, ?_⟩, rfl, rfl, fun _ _ => rfl⟩
      rw [hnamed]
      exact hupdates

/-- A side that the other one's end did not touch. -/
theorem SideKept.of_same {side : Side} {entries : List Entry} {fields fields' : Fields}
    (h : SideKept instruments side entries fields) (hdeferred : fields'.deferred = fields.deferred)
    (hread : fields'.sidesRead = fields.sidesRead)
    (hupdates : sideLevels side fields'.updates = sideLevels side fields.updates) :
    SideKept instruments side entries fields' := by
  cases h with
  | absent hentries hd hr hu =>
      exact .absent hentries (by rw [hdeferred, hd]) (by rw [hread, hr]) (hupdates.trans hu)
  | deferred hentries hn hd hr hu =>
      exact .deferred hentries hn (by rw [hdeferred, hd]) (by rw [hread, hr]) (hupdates.trans hu)
  | read hentries hn hd hr hu =>
      exact .read hentries hn (by rw [hdeferred, hd]) (by rw [hread, hr]) (by rwa [hupdates])

theorem orMissing_eq_ok {α : Type} {value : Option α} {name : String} {a : α} :
    orMissing value name = .ok a ↔ value = some a := by
  cases value <;> simp [orMissing]

/-- A decoded update: the instrument of the last symbol, and both sides. -/
theorem decodeUpdate_done {limit : Nat} {message : Bytes} {update : DepthUpdate}
    (h : decodeUpdate instruments limit message = .ok update) :
    ∃ instrument, namedBy instruments (streamMembers message) = some instrument ∧
      update.instrument = instrument.id ∧
      ∀ side, SideDone instruments side instrument (streamMembers message) update.updates := by
  obtain ⟨⟨fields, r⟩, hread, h⟩ := except_bind_eq_ok.mp h
  obtain ⟨entries, hwalk, hkept⟩ := readEnvelope_along hread
  have hentries : streamMembers message = entries := by rw [streamMembers, hwalk]
  obtain ⟨-, -, h⟩ := except_bind_eq_ok.mp h
  obtain ⟨instrument, hinstrument, h⟩ := except_bind_eq_ok.mp h
  obtain ⟨fields₁, hbuy, h⟩ := except_bind_eq_ok.mp h
  obtain ⟨fields₂, hsell, h⟩ := except_bind_eq_ok.mp h
  obtain ⟨hdone₁, hdeferred, hread', hother₁⟩ := finishSide_done (hkept.sides .buy) hbuy
  have hkept₁ := (hkept.sides .sell).of_same hdeferred hread' (hother₁ .sell (by decide))
  obtain ⟨hdone₂, -, -, hother₂⟩ := finishSide_done hkept₁ hsell
  split_ifs at h
  obtain ⟨first, -, h⟩ := except_bind_eq_ok.mp h
  obtain ⟨last, -, h⟩ := except_bind_eq_ok.mp h
  split at h
  · cases h
  · obtain ⟨eventTime, -, h⟩ := except_bind_eq_ok.mp h
    cases h
    rw [hentries]
    refine ⟨instrument, hkept.instrument.symm.trans (orMissing_eq_ok.mp hinstrument), rfl, ?_⟩
    intro side
    cases side with
    | buy =>
        obtain ⟨front, e, back, hat, hall⟩ := hdone₁
        exact ⟨front, e, back, hat, by rwa [hother₂ .buy (by decide)]⟩
    | sell => exact hdone₂

end Updates

/-! ## §5 Snapshots -/

/-- The texts of the arrays of this name, in their order. -/
def arraysOf (name : String) (entries : List Entry) : List (List (Bytes × Bytes)) :=
  (entries.filter fun e => e.name = ascii name).map fun e => levelTexts e.rest

theorem arraysOf_snoc (name : String) (entries : List Entry) (e : Entry) :
    arraysOf name (entries ++ [e]) =
      if e.name = ascii name then arraysOf name entries ++ [levelTexts e.rest]
      else arraysOf name entries := by
  unfold arraysOf
  by_cases h : e.name = ascii name <;> simp [h]

section Snapshots

variable {instrument : Instrument} {limit : Nat}

/-- One list of a snapshot: the levels of all arrays of its name. -/
structure ListKept (instrument : Instrument) (name : String) (entries : List Entry)
    (levels : List Level) (seen : Bool) : Prop where
  levels : List.Forall₂ (ReadsAs instrument.tick instrument.lot) (arraysOf name entries).flatten levels
  seen : seen = true → arraysOf name entries ≠ []

structure SnapshotKept (instrument : Instrument) (entries : List Entry) (fields : SnapshotFields) :
    Prop where
  bids : ListKept instrument "bids" entries fields.bids fields.seenBids
  asks : ListKept instrument "asks" entries fields.asks fields.seenAsks

theorem ListKept.other {name : String} {entries : List Entry} {levels : List Level} {seen : Bool}
    {e : Entry} (h : ListKept instrument name entries levels seen) (hne : e.name ≠ ascii name) :
    ListKept instrument name (entries ++ [e]) levels seen := by
  have harrays := arraysOf_snoc name entries e
  rw [if_neg hne] at harrays
  exact ⟨by rw [harrays]; exact h.levels, by rw [harrays]; exact h.seen⟩

/-- Another array of the name goes behind the ones before. -/
theorem ListKept.more {name : String} {entries : List Entry} {levels more : List Level} {seen : Bool}
    {e : Entry} (h : ListKept instrument name entries levels seen) (hname : e.name = ascii name)
    (hmore : List.Forall₂ (ReadsAs instrument.tick instrument.lot) (levelTexts e.rest) more) :
    ListKept instrument name (entries ++ [e]) (levels ++ more) true := by
  have harrays := arraysOf_snoc name entries e
  rw [if_pos hname] at harrays
  refine ⟨?_, by simp [harrays]⟩
  rw [harrays, List.flatten_append, List.flatten_singleton]
  exact List.rel_append h.levels hmore

theorem readLevels_more {r r' : Reader} {tick lot : Increment} {out out' : List Level}
    (h : readLevelsInto r tick lot limit out = .ok (out', r')) :
    r.skip = .ok r' ∧ ∃ more, out' = out ++ more ∧
      List.Forall₂ (ReadsAs tick lot) (levelTexts r.rest) more := by
  obtain ⟨hskip, more, hout, hall⟩ := readLevelsInto_texts h
  exact ⟨hskip, more, by rw [hout, List.map_id], hall⟩

/-- One member of a snapshot. -/
theorem readSnapshotMember_kept {key : Bytes} {entries : List Entry}
    {fields fields' : SnapshotFields} {r r' : Reader} (hdepth : r.depth ≤ maxDepth)
    (hkept : SnapshotKept instrument entries fields)
    (h : readSnapshotMember instrument limit key fields r = .ok (fields', r')) :
    r.skip = .ok r' ∧ SnapshotKept instrument (entries ++ [⟨key, r.rest⟩]) fields' := by
  have hnames : ascii "bids" ≠ ascii "asks" := by decide +kernel
  unfold readSnapshotMember at h
  split_ifs at h with hid hbids hasks
  · obtain ⟨⟨id, r₁⟩, hu64, h⟩ := except_bind_eq_ok.mp h
    cases h
    have hne : key ≠ ascii "bids" ∧ key ≠ ascii "asks" := by
      rw [hid]
      decide +kernel
    exact ⟨Reader.skip_of_u64 hdepth (fromJson_eq_ok.mp hu64), hkept.bids.other hne.1,
      hkept.asks.other hne.2⟩
  · obtain ⟨⟨bids, r₁⟩, hread, h⟩ := except_bind_eq_ok.mp h
    cases h
    obtain ⟨hskip, more, rfl, hall⟩ := readLevels_more hread
    exact ⟨hskip, hkept.bids.more hbids hall, hkept.asks.other (by rw [hbids]; exact hnames)⟩
  · obtain ⟨⟨asks, r₁⟩, hread, h⟩ := except_bind_eq_ok.mp h
    cases h
    obtain ⟨hskip, more, rfl, hall⟩ := readLevels_more hread
    exact ⟨hskip, hkept.bids.other hbids, hkept.asks.more hasks hall⟩
  · obtain ⟨r₁, hskip, h⟩ := except_bind_eq_ok.mp h
    cases h
    exact ⟨fromJson_eq_ok.mp hskip, hkept.bids.other hbids, hkept.asks.other hasks⟩

theorem readSnapshotMembers_succ {rounds : Nat} {fields fields' : SnapshotFields} {r r' : Reader}
    (h : readSnapshotMembers instrument limit (rounds + 1) fields r = .ok (fields', r')) :
    (r.nextKey = .ok (none, r') ∧ fields' = fields) ∨ ∃ key m fields₁ r₁,
      r.nextKey = .ok (some key, m) ∧
        readSnapshotMember instrument limit key fields m = .ok (fields₁, r₁) ∧
        readSnapshotMembers instrument limit rounds fields₁ r₁ = .ok (fields', r') :=
  memberRound_eq_ok h

theorem readSnapshotMembers_zero {fields : SnapshotFields} {r : Reader}
    {out : SnapshotFields × Reader} : readSnapshotMembers instrument limit 0 fields r ≠ .ok out := by
  simp [readSnapshotMembers]

/-- A decoded snapshot: both of its lists. -/
theorem decodeSnapshot_done {message : Bytes} {snapshot : DepthSnapshot}
    (h : decodeSnapshot instrument limit message = .ok snapshot) :
    ListKept instrument "bids" (objectMembers message) snapshot.bids true ∧
      ListKept instrument "asks" (objectMembers message) snapshot.asks true := by
  obtain ⟨r₁, hopen, h⟩ := except_bind_eq_ok.mp h
  obtain ⟨⟨fields, r⟩, hread, h⟩ := except_bind_eq_ok.mp h
  obtain ⟨hroom, -, -, -, hdepth, -⟩ := (Reader.enter_eq_ok rfl).mp (fromJson_eq_ok.mp hopen)
  have hempty : SnapshotKept instrument [] ⟨none, [], false, [], false⟩ :=
    ⟨⟨.nil, by simp⟩, ⟨.nil, by simp⟩⟩
  have hstep : ∀ {entries : List Entry} {key : Bytes} {fields : SnapshotFields} {m : Reader}
      {fields' : SnapshotFields} {r' : Reader}, m.depth = (Reader.new message).depth + 1 →
      SnapshotKept instrument entries fields →
      readSnapshotMember instrument limit key fields m = .ok (fields', r') →
      ∃ more, walkMember key m = .ok (more, r') ∧ SnapshotKept instrument (entries ++ more) fields' ∧
        r'.depth = (Reader.new message).depth + 1 := by
    intro entries key fields m fields' r' hm hkept hmember
    obtain ⟨hskip, hkept'⟩ := readSnapshotMember_kept (by omega) hkept hmember
    exact ⟨_, walkMember_eq hskip, hkept', (skip_depth (by omega) hskip).trans hm⟩
  obtain ⟨entries, hwalk, hkept, -⟩ := loop_along readSnapshotMembers_zero readSnapshotMembers_succ
    hstep _ hdepth hempty hread
  rw [List.nil_append] at hkept
  have hentries : objectMembers message = entries := by
    rw [objectMembers, walkObject, fromJson_eq_ok.mp hopen]
    show (match walkMembers walkMember (r₁.rest.length + 1) r₁ with
      | .ok (entries, _) => entries
      | .error _ => []) = entries
    rw [hwalk]
  obtain ⟨-, -, h⟩ := except_bind_eq_ok.mp h
  split_ifs at h with hbids hasks
  obtain ⟨id, -, h⟩ := except_bind_eq_ok.mp h
  cases h
  simp only [Bool.not_eq_true', Bool.not_eq_false] at hbids hasks
  rw [hentries]
  exact ⟨⟨hkept.bids.levels, fun _ => hkept.bids.seen hbids⟩,
    ⟨hkept.asks.levels, fun _ => hkept.asks.seen hasks⟩⟩

end Snapshots

/-! ## §6 Origin -/

/-- A level is worth what its texts say, in this instrument's increments. -/
def InUnitsOf (instrument : Instrument) (pair : Bytes × Bytes) (level : Level) : Prop :=
  decimalValue pair.1 = level.price * instrument.tick.toRat ∧
    decimalValue pair.2 = level.qty * instrument.lot.toRat

/-- Levels read with other increments are in this instrument's units exactly where
the increments or the texts make no difference. -/
theorem inUnitsOf_iff {tick lot : Increment} {instrument : Instrument}
    {pairs : List (Bytes × Bytes)} {levels : List Level}
    (h : List.Forall₂ (ReadsAs tick lot) pairs levels) :
    List.Forall₂ (InUnitsOf instrument) pairs levels ↔
      (tick = instrument.tick ∨ ∀ pair ∈ pairs, decimalValue pair.1 = 0) ∧
        (lot = instrument.lot ∨ ∀ pair ∈ pairs, decimalValue pair.2 = 0) := by
  have hpoint : List.Forall₂ (InUnitsOf instrument) pairs levels ↔
      ∀ pair ∈ pairs, (tick = instrument.tick ∨ decimalValue pair.1 = 0) ∧
        (lot = instrument.lot ∨ decimalValue pair.2 = 0) := by
    induction h with
    | nil => simp
    | cons hread _ ih =>
        have hprice := Increment.units_of_other instrument.tick (exact_sound hread.1)
        have hqty := Increment.units_of_other instrument.lot (exact_sound hread.2)
        rw [List.forall₂_cons, ih, InUnitsOf, hprice, hqty]
        simp
  rw [hpoint]
  by_cases htick : tick = instrument.tick <;> by_cases hlot : lot = instrument.lot <;>
    simp [htick, hlot, forall_and]

/-- Levels read with the instrument's own increments. -/
theorem inUnitsOf_own {instrument : Instrument} {pairs : List (Bytes × Bytes)} {levels : List Level}
    (h : List.Forall₂ (ReadsAs instrument.tick instrument.lot) pairs levels) :
    List.Forall₂ (InUnitsOf instrument) pairs levels :=
  (inUnitsOf_iff h).mpr ⟨.inl rfl, .inl rfl⟩

/-- The levels of an update are those of the message's single array of either side,
in the units of the instrument that the update is reported for. -/
def UpdateBelongs (instruments : InstrumentTable) (message : Bytes) (update : DepthUpdate) : Prop :=
  ∃ instrument, instruments.get update.instrument = some instrument ∧
    ∀ side, ∃ e, ((streamMembers message).filter fun x => x.name = ascii (sideName side)) = [e] ∧
      List.Forall₂ (InUnitsOf instrument) (levelTexts e.rest) (sideLevels side update.updates)

/-- No symbol behind an array changes what its texts are worth: where a symbol
stands before a side's array, its instrument has the tick of the last symbol's or
all prices are zero, and so for the lot and the quantities. -/
def SymbolsAgree (instruments : InstrumentTable) (message : Bytes) : Prop :=
  ∀ side front e back earlier last, streamMembers message = front ++ e :: back →
    e.name = ascii (sideName side) → namedBy instruments front = some earlier →
    namedBy instruments (streamMembers message) = some last →
    (earlier.tick = last.tick ∨ ∀ pair ∈ levelTexts e.rest, decimalValue pair.1 = 0) ∧
      (earlier.lot = last.lot ∨ ∀ pair ∈ levelTexts e.rest, decimalValue pair.2 = 0)

theorem SideAt.filter {side : Side} {front back entries : List Entry} {e : Entry}
    (h : SideAt side front e back entries) :
    (entries.filter fun x => x.name = ascii (sideName side)) = [e] := by
  rw [h.split, List.filter_append, List.filter_cons_of_pos (by simpa using h.name),
    List.filter_eq_nil_iff.mpr (by simpa using h.front),
    List.filter_eq_nil_iff.mpr (by simpa using h.back)]
  rfl

/-- A side has one place among the members. -/
theorem SideAt.unique {side : Side} {front back front' back' entries : List Entry} {e e' : Entry}
    (h : SideAt side front e back entries) (hsplit : entries = front' ++ e' :: back')
    (hname : e'.name = ascii (sideName side)) : front = front' ∧ e = e' := by
  have heq : front ++ e :: back = front' ++ e' :: back' := h.split.symm.trans hsplit
  rcases List.append_eq_append_iff.mp heq with ⟨mid, hfront, hmid⟩ | ⟨mid, hfront, hmid⟩
  · cases mid with
    | nil =>
        cases hmid
        exact ⟨by simpa using hfront.symm, rfl⟩
    | cons x mid =>
        cases hmid
        exact absurd hname (h.back e' (by simp))
  · cases mid with
    | nil =>
        cases hmid
        exact ⟨by simpa using hfront, rfl⟩
    | cons x mid =>
        cases hmid
        exact absurd hname (h.front e' (by simp [hfront]))

theorem namedBy_get {instruments : InstrumentTable} {entries : List Entry} {instrument : Instrument}
    (h : namedBy instruments entries = some instrument) :
    instruments.get instrument.id = some instrument := by
  obtain ⟨e, -, h⟩ := Option.bind_eq_some_iff.mp h
  obtain ⟨symbol, -, h⟩ := Option.bind_eq_some_iff.mp h
  exact InstrumentTable.get_of_find h

/-- A decoded update's levels belong to its instrument exactly if its symbols agree. -/
theorem update_belongs_iff {instruments : InstrumentTable} {limit : Nat} {message : Bytes}
    {update : DepthUpdate} (h : decodeUpdate instruments limit message = .ok update) :
    UpdateBelongs instruments message update ↔ SymbolsAgree instruments message := by
  obtain ⟨instrument, hnamed, hid, hdone⟩ := decodeUpdate_done h
  have hget : instruments.get update.instrument = some instrument := by
    rw [hid]
    exact namedBy_get hnamed
  constructor
  · rintro ⟨instrument', hget', hsides⟩ side front e back earlier last hsplit hname hearlier hlast
    obtain rfl : instrument = instrument' := Option.some.inj (hget.symm.trans hget')
    obtain rfl : instrument = last := Option.some.inj (hnamed.symm.trans hlast)
    obtain ⟨front', e', back', hat, hall⟩ := hdone side
    obtain ⟨rfl, rfl⟩ := hat.unique hsplit hname
    obtain ⟨x, hfilter, hunits⟩ := hsides side
    obtain rfl := List.singleton_injective (hfilter.symm.trans hat.filter)
    rw [hearlier] at hall
    exact (inUnitsOf_iff hall).mp hunits
  · intro hagree
    refine ⟨instrument, hget, fun side => ?_⟩
    obtain ⟨front, e, back, hat, hall⟩ := hdone side
    refine ⟨e, hat.filter, (inUnitsOf_iff hall).mpr ?_⟩
    cases hearlier : namedBy instruments front with
    | none => exact ⟨.inl rfl, .inl rfl⟩
    | some earlier => exact hagree side front e back earlier instrument hat.split hat.name hearlier hnamed

/-- Each list of a snapshot is the levels of one array of the message. -/
def SnapshotBelongs (instrument : Instrument) (message : Bytes) (snapshot : DepthSnapshot) : Prop :=
  (∃ texts ∈ arraysOf "bids" (objectMembers message),
      List.Forall₂ (InUnitsOf instrument) texts snapshot.bids) ∧
    ∃ texts ∈ arraysOf "asks" (objectMembers message),
      List.Forall₂ (InUnitsOf instrument) texts snapshot.asks

/-- At most one of the arrays has levels. -/
def OneFilled (arrays : List (List (Bytes × Bytes))) : Prop :=
  (arrays.filter fun texts => texts ≠ []).length ≤ 1

/-- One of some lists has all of their elements exactly if no two have any. -/
theorem oneFilled_iff {arrays : List (List (Bytes × Bytes))} (hne : arrays ≠ []) :
    OneFilled arrays ↔ ∃ texts ∈ arrays, texts.length = arrays.flatten.length := by
  have hkeep : (arrays.filter fun texts => texts ≠ []).flatten = arrays.flatten := by
    simpa using List.flatten_filter_ne_nil (L := arrays)
  constructor
  · intro hone
    cases hfilled : arrays.filter fun texts => texts ≠ [] with
    | nil =>
        obtain ⟨texts, rest, rfl⟩ := List.exists_cons_of_ne_nil hne
        have hnil : texts = [] := by
          have hall := List.filter_eq_nil_iff.mp hfilled texts (by simp)
          simpa using hall
        refine ⟨texts, by simp, ?_⟩
        rw [← hkeep, hfilled, hnil]
        rfl
    | cons texts others =>
        obtain rfl : others = [] := by
          rw [OneFilled, hfilled] at hone
          simpa using hone
        refine ⟨texts, List.mem_of_mem_filter (hfilled ▸ List.mem_singleton_self texts), ?_⟩
        rw [← hkeep, hfilled]
        simp
  · rintro ⟨texts, hmem, hlen⟩
    obtain ⟨front, back, rfl⟩ := List.append_of_mem hmem
    have hempty : ∀ l ∈ front ++ back, l = [] := by
      simp only [List.flatten_append, List.flatten_cons, List.length_append] at hlen
      have hfront : front.flatten = [] := List.length_eq_zero_iff.mp (by omega)
      have hback : back.flatten = [] := List.length_eq_zero_iff.mp (by omega)
      intro l hl
      rcases List.mem_append.mp hl with hl | hl
      · exact List.flatten_eq_nil_iff.mp hfront l hl
      · exact List.flatten_eq_nil_iff.mp hback l hl
    have hfront : front.filter (fun texts => texts ≠ []) = [] :=
      List.filter_eq_nil_iff.mpr fun l hl => by simp [hempty l (by simp [hl])]
    have hback : back.filter (fun texts => texts ≠ []) = [] :=
      List.filter_eq_nil_iff.mpr fun l hl => by simp [hempty l (by simp [hl])]
    rw [OneFilled, List.filter_append, List.filter_cons, hfront, hback]
    split_ifs <;> simp

/-- A list of a snapshot comes from one array exactly if no two have levels. -/
theorem ListKept.one_iff {instrument : Instrument} {name : String} {entries : List Entry}
    {levels : List Level} (h : ListKept instrument name entries levels true) :
    (∃ texts ∈ arraysOf name entries, List.Forall₂ (InUnitsOf instrument) texts levels) ↔
      OneFilled (arraysOf name entries) := by
  have hall := inUnitsOf_own h.levels
  rw [oneFilled_iff (h.seen rfl)]
  constructor
  · rintro ⟨texts, hmem, hunits⟩
    exact ⟨texts, hmem, hunits.length_eq.trans hall.length_eq.symm⟩
  · rintro ⟨texts, hmem, hlen⟩
    refine ⟨texts, hmem, ?_⟩
    have hsub : texts.Sublist (arraysOf name entries).flatten := List.sublist_flatten_of_mem hmem
    rw [hsub.eq_of_length hlen]
    exact hall

/-- **Where decoded levels come from.** The levels of a decoded update are those of
the message's one array of either side, in the units of the reported instrument,
exactly if the symbols of the message agree on what the arrays before the last of
them are worth. The lists of a decoded snapshot are the levels of one array each
exactly if no two arrays of a name have levels. -/
theorem decoded_levels_belong_iff (message : Bytes) :
    (∀ instruments limit update, decodeUpdate instruments limit message = .ok update →
      (UpdateBelongs instruments message update ↔ SymbolsAgree instruments message)) ∧
    ∀ instrument limit snapshot, decodeSnapshot instrument limit message = .ok snapshot →
      (SnapshotBelongs instrument message snapshot ↔
        OneFilled (arraysOf "bids" (objectMembers message)) ∧
          OneFilled (arraysOf "asks" (objectMembers message))) := by
  refine ⟨fun _ _ _ => update_belongs_iff, fun instrument limit snapshot h => ?_⟩
  obtain ⟨hbids, hasks⟩ := decodeSnapshot_done h
  exact and_congr hbids.one_iff hasks.one_iff

def centTick : Increment := .decimals 2

def tenthTick : Increment := .decimals 1

/-- Two instruments with different ticks. -/
def twoTicks : InstrumentTable :=
  ⟨[⟨⟨0⟩, .binance, .btcUsdt, centTick, centTick, .zero⟩,
    ⟨⟨1⟩, .binance, ⟨ascii "ETHUSDT", by decide⟩, tenthTick, centTick, .zero⟩], by decide⟩

/-- An array between two symbols. -/
def twoSymbols : Bytes :=
  ascii "\x7b\"e\":\"depthUpdate\",\"E\":1,\"U\":1,\"u\":1,\"s\":\"ETHUSDT\",\"b\":[[\"1\",\"1\"]],\"s\":\"BTCUSDT\",\"a\":[]\x7d"

theorem twoSymbols_decoded : decodeUpdate twoTicks 1 twoSymbols =
    .ok ⟨⟨0⟩, ⟨1000000⟩, ⟨1, 1, by decide, by decide⟩, [⟨.buy, 10, 100⟩]⟩ := by
  decide +kernel

/-- Ten ticks of the other instrument are reported as ten of this one's. -/
theorem symbol_behind_levels_misreports : ∃ update,
    decodeUpdate twoTicks 1 twoSymbols = .ok update ∧ ¬ UpdateBelongs twoTicks twoSymbols update := by
  refine ⟨_, twoSymbols_decoded, ?_⟩
  rintro ⟨instrument, hget, hsides⟩
  obtain ⟨e, hfilter, hall⟩ := hsides .buy
  have htexts : ((streamMembers twoSymbols).filter fun x => x.name = ascii (sideName .buy)).map
      (fun e => levelTexts e.rest) = [[([49], [49])]] := by
    decide +kernel
  rw [hfilter, List.map_singleton] at htexts
  have hlevels : sideLevels .buy [⟨.buy, 10, 100⟩] = [⟨10, 100⟩] := rfl
  rw [List.singleton_injective htexts, hlevels, List.forall₂_cons] at hall
  obtain rfl : twoTicks.instruments.head (by decide) = instrument := Option.some.inj hget
  exact absurd hall.1.1 (by decide +kernel)

/-- Two arrays of bids. -/
def twoArrays : Bytes :=
  ascii "\x7b\"lastUpdateId\":1,\"bids\":[[\"1\",\"1\"]],\"bids\":[[\"2\",\"1\"]],\"asks\":[]\x7d"

theorem twoArrays_decoded :
    decodeSnapshot (twoTicks.instruments.head (by decide)) 2 twoArrays =
      .ok ⟨1, [⟨100, 100⟩, ⟨200, 100⟩], []⟩ := by
  decide +kernel

theorem decoded_levels_belong_sample :
    (UpdateBelongs twoTicks twoSymbols
        ⟨⟨0⟩, ⟨1000000⟩, ⟨1, 1, by decide, by decide⟩, [⟨.buy, 10, 100⟩]⟩ ↔
      SymbolsAgree twoTicks twoSymbols) ∧
    ¬ SnapshotBelongs (twoTicks.instruments.head (by decide)) twoArrays
      ⟨1, [⟨100, 100⟩, ⟨200, 100⟩], []⟩ := by
  refine ⟨(decoded_levels_belong_iff twoSymbols).1 _ _ _ twoSymbols_decoded, fun h => ?_⟩
  have hone := (((decoded_levels_belong_iff twoArrays).2 _ _ _ twoArrays_decoded).mp h).1
  have htwo : ((arraysOf "bids" (objectMembers twoArrays)).filter fun texts => texts ≠ []).length = 2 := by
    decide +kernel
  rw [OneFilled, htwo] at hone
  omega

end Bowst.Venue
