/-
Bowst.Venue.JsonTheorems — what the pull reader accepts.

Each operation has one lemma: it succeeds exactly if the bytes ahead begin with
its part of the grammar, and then it took these bytes. `skip` is put together from
them: over the levels of nesting, and inside a level over the members of a
container, whose commas the reader tells apart by whether a value has just been
read.

  §1 Took    — a reader that has moved on.
  §2 Tokens  — white space, single bytes, strings, literals and numbers.
  §3 Members — the separators of a container.
  §4 Skip    — a whole value.
  §5 Runs    — the recursion of `skip` comes to an end.
  §6 Grammar — RFC 8259 inside the reader's own grammar, and the whole statement.
-/
import Bowst.Lib.JsonGrammar
import Bowst.Venue.Json

namespace Bowst.Venue

open Bowst.Lib
open Bowst.Core (Bytes)

namespace Reader

/-! ## §1 Took -/

/-- `r'` is `r` behind the bytes `front`, in the same container. -/
structure Took (r : Reader) (front : Bytes) (r' : Reader) : Prop where
  rest : r.rest = front ++ r'.rest
  pos : r'.pos = r.pos + front.length

theorem Took.refl (r : Reader) : r.Took [] r := ⟨rfl, rfl⟩

theorem Took.trans {r r' r'' : Reader} {xs ys : Bytes} (h : r.Took xs r') (h' : r'.Took ys r'') :
    r.Took (xs ++ ys) r'' := by
  refine ⟨?_, ?_⟩
  · rw [h.rest, h'.rest, List.append_assoc]
  · rw [h'.pos, h.pos, List.length_append, Nat.add_assoc]

/-- Readers at one place in the same container are equal. -/
theorem Took.unique {r r' r'' : Reader} {xs : Bytes} (h : r.Took xs r') (h' : r.Took xs r'')
    (hdepth : r'.depth = r''.depth) (hafter : r'.afterValue = r''.afterValue) : r' = r'' := by
  obtain ⟨rest, pos, depth, after⟩ := r'
  obtain ⟨rest', pos', depth', after'⟩ := r''
  have hrest : rest = rest' := List.append_cancel_left (h.rest.symm.trans h'.rest)
  have hpos : pos = pos' := h.pos.trans h'.pos.symm
  simp only at hdepth hafter
  subst hrest hpos hdepth hafter
  rfl

/-- A reader part of the way. -/
theorem Took.split {r r' : Reader} {xs ys : Bytes} (h : r.Took (xs ++ ys) r') (depth : Nat)
    (after : Bool) : ∃ m : Reader, r.Took xs m ∧ m.Took ys r' ∧ m.depth = depth ∧
      m.afterValue = after := by
  refine ⟨⟨ys ++ r'.rest, r.pos + xs.length, depth, after⟩, ⟨?_, rfl⟩, ⟨rfl, ?_⟩, rfl, rfl⟩
  · rw [h.rest, List.append_assoc]
  · rw [h.pos, List.length_append, Nat.add_assoc]

theorem took_advance (r : Reader) {front back : Bytes} (h : r.rest = front ++ back) :
    r.Took front (r.advance front.length) := by
  refine ⟨?_, rfl⟩
  rw [advance, h, List.drop_left]

/-- A reader that is behind what was taken is the one that was moved on. -/
theorem Took.advance_eq {r r' : Reader} {front : Bytes} {n : Nat} {after : Bool} (h : r.Took front r')
    (hlen : front.length = n) (hdepth : r'.depth = r.depth) (hafter : r'.afterValue = after) :
    { r.advance n with afterValue := after } = r' := by
  have htook : r.Took front (r.advance n) := hlen ▸ r.took_advance h.rest
  exact Took.unique ⟨htook.rest, htook.pos⟩ h hdepth.symm hafter.symm

/-! ## §2 Tokens -/

theorem isWhitespace_iff (b : UInt8) :
    isWhitespace b = true ↔ b = 32 ∨ b = 9 ∨ b = 10 ∨ b = 13 := by
  simp [isWhitespace, or_assoc]

theorem white_iff (w : Bytes) : White w ↔ ∀ b ∈ w, isWhitespace b = true := by
  simp only [White, isWhitespace_iff]

/-- White space up to something else. -/
theorem skipWhitespace_eq {r : Reader} {w back : Bytes} (hw : White w) (hrest : r.rest = w ++ back)
    (hback : ∀ b ∈ back.head?, isWhitespace b = false) :
    r.skipWhitespace = { r with rest := back, pos := r.pos + w.length } := by
  have htake := takeWhile_append_stop ((white_iff w).mp hw) hback
  rw [skipWhitespace, advance, hrest, htake, List.drop_left]

theorem skipWhitespace_took (r : Reader) : ∃ w, White w ∧ r.Took w r.skipWhitespace ∧
    r.skipWhitespace.depth = r.depth ∧ r.skipWhitespace.afterValue = r.afterValue ∧
    ∀ b ∈ r.skipWhitespace.rest.head?, isWhitespace b = false := by
  obtain ⟨back, hsplit, hall, hback⟩ := exists_takeWhile_split isWhitespace r.rest
  have hw : White (r.rest.takeWhile isWhitespace) := (white_iff _).mpr hall
  have heq := skipWhitespace_eq hw hsplit hback
  refine ⟨_, hw, r.took_advance hsplit, rfl, rfl, ?_⟩
  rw [heq]
  exact hback

/-- A byte behind white space. -/
theorem expectByte_eq_ok {r r' : Reader} {byte : UInt8} {expected : String}
    (hbyte : isWhitespace byte = false) : r.expectByte byte expected = .ok r' ↔
      ∃ w, White w ∧ r.Took (w ++ [byte]) r' ∧ r'.depth = r.depth ∧
        r'.afterValue = r.afterValue := by
  unfold expectByte
  constructor
  · obtain ⟨w, hw, htook, hdepth, hafter, -⟩ := r.skipWhitespace_took
    intro h
    dsimp only at h
    split_ifs at h with hpeek
    cases h
    obtain ⟨back, hback⟩ := List.head?_eq_some_iff.mp hpeek
    exact ⟨w, hw, htook.trans (took_advance _ (show _ = [byte] ++ back from hback)), hdepth, hafter⟩
  · rintro ⟨w, hw, htook, hdepth, hafter⟩
    have hrest : r.rest = w ++ byte :: r'.rest := by rw [htook.rest]; simp
    have hskip := skipWhitespace_eq hw hrest (by simpa using hbyte)
    dsimp only
    rw [hskip, if_pos (by simp [peek])]
    congr 1
    refine Took.unique ⟨?_, ?_⟩ htook ?_ ?_
    · simp [advance, hrest]
    · simp [advance, Nat.add_assoc]
    · simp [advance, hdepth]
    · simp [advance, hafter]

theorem plainByte_iff (b : UInt8) :
    PlainByte b ↔ (b = 34 || b = 92 || decide (b < 0x20)) = false := by
  simp [PlainByte, and_comm]

/-- The end of the plain bytes of a string. -/
theorem stringEnd_eq_ok {r : Reader} {found : Nat} : r.stringEnd = .ok found ↔
    ∃ plain b back, r.rest = plain ++ b :: back ∧ plain.length = found ∧
      (∀ x ∈ plain, PlainByte x) ∧ (b = 34 ∨ b = 92) := by
  unfold stringEnd
  constructor
  · intro h
    cases hfind : r.rest.findIdx? fun b => b = 34 || b = 92 || decide (b < 0x20) with
    | none => simp [hfind] at h
    | some n =>
        obtain ⟨plain, b, back, hrest, hlen, hplain, hb⟩ := findIdx?_eq_some_split.mp hfind
        simp only [hfind] at h
        split_ifs at h with hcontrol
        cases h
        have hnot : ¬ b < 0x20 := by
          rw [hrest, ← hlen] at hcontrol
          simpa using hcontrol
        refine ⟨plain, b, back, hrest, hlen, fun x hx => (plainByte_iff x).mpr (hplain x hx), ?_⟩
        simpa [hnot] using hb
  · rintro ⟨plain, b, back, hrest, hlen, hplain, hb⟩
    have hnot : ¬ b < 0x20 := by rcases hb with rfl | rfl <;> decide
    have hfind : (r.rest.findIdx? fun b => b = 34 || b = 92 || decide (b < 0x20)) = some found :=
      findIdx?_eq_some_split.mpr ⟨plain, b, back, hrest, hlen,
        fun x hx => (plainByte_iff x).mp (hplain x hx), by rcases hb with rfl | rfl <;> simp⟩
    simp only [hfind]
    rw [if_neg]
    rw [hrest, ← hlen]
    simpa using hnot

/-- A string without escapes, behind white space. -/
theorem quoted_eq_ok {r r' : Reader} {start : Nat} {text : Bytes} :
    r.quoted = .ok (start, text, r') ↔ (∀ x ∈ text, PlainByte x) ∧
      ∃ w, White w ∧ r.Took (w ++ 34 :: (text ++ [34])) r' ∧ r'.depth = r.depth ∧
        r'.afterValue = true ∧ start = r.pos + w.length + 1 := by
  have hquote : isWhitespace 34 = false := rfl
  unfold quoted
  constructor
  · intro h
    obtain ⟨r₁, hopen, h⟩ := except_bind_eq_ok.mp h
    obtain ⟨found, hend, h⟩ := except_bind_eq_ok.mp h
    obtain ⟨w, hw, htook, hdepth, -⟩ := (expectByte_eq_ok hquote).mp hopen
    obtain ⟨plain, b, back, hrest, hlen, hplain, hb⟩ := stringEnd_eq_ok.mp hend
    have hbyte : r₁.rest[found]? = some b := by rw [hrest, ← hlen]; simp
    have htake : r₁.rest.take found = plain := by rw [hrest, ← hlen, List.take_left]
    rw [hbyte, htake] at h
    split_ifs at h with hescape
    simp only [Except.ok.injEq, Prod.mk.injEq] at h
    obtain ⟨rfl, rfl, rfl⟩ := h
    have hclose : b = 34 := hb.resolve_right fun hb => hescape (by rw [hb])
    subst hclose
    have hlast : r₁.Took (plain ++ [34]) (r₁.advance (found + 1)) := by
      have hlen' : found + 1 = (plain ++ [34]).length := by simp [hlen]
      rw [hlen']
      exact took_advance _ (show _ = (plain ++ [34]) ++ back by simp [hrest])
    have hall := htook.trans hlast
    refine ⟨hplain, w, hw, ⟨?_, ?_⟩, hdepth, rfl, ?_⟩
    · simpa using hall.rest
    · simpa [Nat.add_assoc] using hall.pos
    · simpa [Nat.add_assoc] using htook.pos
  · rintro ⟨hplain, w, hw, htook, hdepth, hafter, rfl⟩
    have hpieces : w ++ 34 :: (text ++ [34]) = (w ++ [34]) ++ (text ++ [34]) := by simp
    rw [hpieces] at htook
    obtain ⟨r₁, hopen, hlast, hdepth₁, hafter₁⟩ := htook.split r.depth r.afterValue
    have hrest : r₁.rest = text ++ 34 :: r'.rest := by simpa using hlast.rest
    have hend : r₁.stringEnd = .ok text.length :=
      stringEnd_eq_ok.mpr ⟨text, 34, r'.rest, hrest, rfl, hplain, .inl rfl⟩
    have hbyte : r₁.rest[text.length]? = some 34 := by rw [hrest]; simp
    have htake : r₁.rest.take text.length = text := by rw [hrest, List.take_left]
    refine except_bind_eq_ok.mpr ⟨r₁, (expectByte_eq_ok hquote).mpr ⟨w, hw, hopen, hdepth₁, hafter₁⟩, ?_⟩
    refine except_bind_eq_ok.mpr ⟨text.length, hend, ?_⟩
    rw [hbyte, htake, if_neg (by decide)]
    have hpos : r₁.pos = r.pos + w.length + 1 := by simpa [Nat.add_assoc] using hopen.pos
    have hreader : { r₁.advance (text.length + 1) with afterValue := true } = r' :=
      hlast.advance_eq (by simp) (hdepth.trans hdepth₁.symm) hafter
    rw [hpos, hreader]

/-- A name as the reader takes it: plain bytes, in UTF-8. -/
theorem str_eq_ok {r r' : Reader} {text : Bytes} : r.str = .ok (text, r') ↔
    Rfc8259.PlainName text ∧ ∃ w, White w ∧ r.Took (w ++ 34 :: (text ++ [34])) r' ∧
      r'.depth = r.depth ∧ r'.afterValue = true := by
  unfold str
  rw [except_bind_eq_ok]
  constructor
  · rintro ⟨⟨start, text', r₁⟩, hquoted, h⟩
    dsimp only at h
    split_ifs at h with hutf8
    simp only [Except.ok.injEq, Prod.mk.injEq] at h
    obtain ⟨rfl, rfl⟩ := h
    obtain ⟨hplain, w, hw, htook, hdepth, hafter, -⟩ := quoted_eq_ok.mp hquoted
    exact ⟨⟨hplain, hutf8⟩, w, hw, htook, hdepth, hafter⟩
  · rintro ⟨⟨hplain, hutf8⟩, w, hw, htook, hdepth, hafter⟩
    refine ⟨_, quoted_eq_ok.mpr ⟨hplain, w, hw, htook, hdepth, hafter, rfl⟩, ?_⟩
    dsimp only
    rw [if_pos hutf8]

/-- A string as bytes. -/
theorem strBytes_eq_ok {r r' : Reader} {text : Bytes} : r.strBytes = .ok (text, r') ↔
    (∀ x ∈ text, PlainByte x) ∧ ∃ w, White w ∧ r.Took (w ++ 34 :: (text ++ [34])) r' ∧
      r'.depth = r.depth ∧ r'.afterValue = true := by
  unfold strBytes
  rw [except_bind_eq_ok]
  constructor
  · rintro ⟨⟨start, text', r₁⟩, hquoted, h⟩
    simp only [Except.ok.injEq, Prod.mk.injEq] at h
    obtain ⟨rfl, rfl⟩ := h
    obtain ⟨hplain, w, hw, htook, hdepth, hafter, -⟩ := quoted_eq_ok.mp hquoted
    exact ⟨hplain, w, hw, htook, hdepth, hafter⟩
  · rintro ⟨hplain, w, hw, htook, hdepth, hafter⟩
    exact ⟨_, quoted_eq_ok.mpr ⟨hplain, w, hw, htook, hdepth, hafter, rfl⟩, rfl⟩

/-- What `skip` takes for an escape: any byte. -/
def AnyEscape (e : Bytes) : Prop := ∃ b, e = [b]

theorem chars_append {Escape : Bytes → Prop} {plain text : Bytes} (hplain : ∀ x ∈ plain, PlainByte x)
    (htext : Chars Escape text) : Chars Escape (plain ++ text) := by
  induction plain with
  | nil => exact htext
  | cons b plain ih => exact .plain (hplain b (by simp)) (ih fun x hx => hplain x (by simp [hx]))

/-- A string's bytes up to its first escape. -/
theorem chars_split {text : Bytes} (h : Chars AnyEscape text) : (∀ x ∈ text, PlainByte x) ∨
    ∃ plain b text', text = plain ++ 92 :: b :: text' ∧ (∀ x ∈ plain, PlainByte x) ∧
      Chars AnyEscape text' := by
  induction h with
  | nil => exact .inl (by simp)
  | @plain b text hb _ ih =>
      rcases ih with hall | ⟨plain, c, text', rfl, hplain, htext⟩
      · refine .inl fun x hx => ?_
        rcases List.mem_cons.mp hx with rfl | hx
        · exact hb
        · exact hall x hx
      · refine .inr ⟨b :: plain, c, text', rfl, fun x hx => ?_, htext⟩
        rcases List.mem_cons.mp hx with rfl | hx
        · exact hb
        · exact hplain x hx
  | @escape e text he htext _ =>
      obtain ⟨b, rfl⟩ := he
      exact .inr ⟨[], b, text, rfl, by simp, htext⟩

/-- The loop of `skip_string`, with a round for every byte. -/
theorem skipStringLoop_eq_ok {r' : Reader} : ∀ (rounds : Nat) (r : Reader), r.rest.length < rounds →
    (skipStringLoop rounds r = .ok r' ↔ ∃ text, Chars AnyEscape text ∧ r.Took (text ++ [34]) r' ∧
      r'.depth = r.depth ∧ r'.afterValue = true) := by
  intro rounds
  induction rounds with
  | zero => intro r h; omega
  | succ rounds ih =>
      intro r hrounds
      rw [skipStringLoop, except_bind_eq_ok]
      constructor
      · rintro ⟨found, hend, h⟩
        obtain ⟨plain, b, back, hrest, hlen, hplain, hb⟩ := stringEnd_eq_ok.mp hend
        have hbyte : r.rest[found]? = some b := by rw [hrest, ← hlen]; simp
        rw [hbyte] at h
        split_ifs at h with hclose hshort
        · -- The closing quote.
          cases h
          cases hclose
          refine ⟨plain, by simpa using chars_append hplain .nil, ?_, rfl, rfl⟩
          have hlen' : found + 1 = (plain ++ [34]).length := by simp [hlen]
          rw [hlen']
          have htook := r.took_advance (show r.rest = (plain ++ [34]) ++ back by simp [hrest])
          exact ⟨htook.rest, htook.pos⟩
        · -- A backslash, with a byte behind it.
          have hslash : b = 92 := hb.resolve_left fun hb => hclose (by rw [hb])
          subst hslash
          obtain ⟨c, back', rfl⟩ : ∃ c back', back = c :: back' := by
            refine List.exists_cons_of_ne_nil fun hnil => hshort ?_
            rw [hrest, hnil]
            simp [hlen]
          have hsplit : r.rest = (plain ++ [92, c]) ++ back' := by simp [hrest]
          have hlen' : found + 2 = (plain ++ [92, c]).length := by simp [hlen]
          rw [hlen'] at h
          have htook := r.took_advance hsplit
          have hshorter : (r.advance (plain ++ [92, c]).length).rest.length < rounds := by
            have hrest' := congrArg List.length htook.rest
            simp at hrest' ⊢
            omega
          obtain ⟨text, htext, hlast, hdepth, hafter⟩ := (ih _ hshorter).mp h
          refine ⟨plain ++ 92 :: ([c] ++ text), chars_append hplain (.escape ⟨c, rfl⟩ htext), ?_,
            hdepth, hafter⟩
          simpa using htook.trans hlast
      · rintro ⟨text, htext, htook, hdepth, hafter⟩
        rcases chars_split htext with hplain | ⟨plain, c, text', rfl, hplain, htext'⟩
        · have hrest : r.rest = text ++ 34 :: r'.rest := by simpa using htook.rest
          have hbyte : r.rest[text.length]? = some 34 := by rw [hrest]; simp
          refine ⟨text.length,
            stringEnd_eq_ok.mpr ⟨text, 34, r'.rest, hrest, rfl, hplain, .inl rfl⟩, ?_⟩
          rw [hbyte, if_pos rfl]
          exact congrArg Except.ok (htook.advance_eq (by simp) hdepth hafter)
        · have hpieces : plain ++ 92 :: c :: text' ++ [34] =
              (plain ++ [92, c]) ++ (text' ++ [34]) := by simp
          rw [hpieces] at htook
          obtain ⟨m, hm, hlast, hmdepth, hmafter⟩ := htook.split r.depth r.afterValue
          have hrest : r.rest = plain ++ 92 :: (c :: m.rest) := by simpa using hm.rest
          have hbyte : r.rest[plain.length]? = some 92 := by rw [hrest]; simp
          refine ⟨plain.length,
            stringEnd_eq_ok.mpr ⟨plain, 92, c :: m.rest, hrest, rfl, hplain, .inr rfl⟩, ?_⟩
          have hlong : ¬ plain.length + 1 ≥ r.rest.length := by rw [hrest]; simp
          have hadvance : r.advance (plain.length + 2) = m :=
            hm.advance_eq (by simp) hmdepth hmafter
          have hshorter : m.rest.length < rounds := by
            rw [hrest] at hrounds
            simp at hrounds
            omega
          rw [hbyte, if_neg (by decide), if_neg hlong, hadvance]
          exact (ih m hshorter).mpr ⟨text', htext', hlast, hdepth.trans hmdepth.symm, hafter⟩

/-- A string with escapes, from its opening quote on. -/
theorem skipString_eq_ok {r r' : Reader} (hpeek : r.peek = some 34) : r.skipString = .ok r' ↔
    ∃ text, Chars AnyEscape text ∧ r.Took (34 :: (text ++ [34])) r' ∧ r'.depth = r.depth ∧
      r'.afterValue = true := by
  obtain ⟨back, hrest⟩ := List.head?_eq_some_iff.mp hpeek
  have hopen := r.took_advance (show r.rest = [34] ++ back from hrest)
  have hshorter : (r.advance 1).rest.length < r.rest.length + 1 := by
    simp only [advance, List.length_drop]
    omega
  rw [skipString, skipStringLoop_eq_ok _ _ hshorter]
  constructor
  · rintro ⟨text, htext, htook, hdepth, hafter⟩
    exact ⟨text, htext, hopen.trans htook, hdepth, hafter⟩
  · rintro ⟨text, htext, htook, hdepth, hafter⟩
    refine ⟨text, htext, ⟨?_, ?_⟩, hdepth, hafter⟩
    · simpa [advance, hrest] using htook.rest
    · have hpos := htook.pos
      simp [advance] at hpos ⊢
      omega

/-- The bytes of a number, as the reader takes them. -/
def NumberToken (text : Bytes) : Prop :=
  (∃ b rest, text = b :: rest ∧ (b = 45 ∨ isDigit b = true)) ∧ ∀ b ∈ text, isNumberByte b = true

/-- A number, up to something that could not go on with it. -/
theorem skipNumber_eq_ok {r r' : Reader} : r.skipNumber = .ok r' ↔
    ∃ text, text ≠ [] ∧ (∀ b ∈ text, isNumberByte b = true) ∧
      (∀ b ∈ r'.rest.head?, isNumberByte b = false) ∧ r.Took text r' ∧ r'.depth = r.depth ∧
      r'.afterValue = true := by
  obtain ⟨back, hsplit, hall, hback⟩ := exists_takeWhile_split isNumberByte r.rest
  unfold skipNumber
  constructor
  · intro h
    dsimp only at h
    split_ifs at h with hzero
    cases h
    have htook := r.took_advance hsplit
    have hrest : (r.advance (r.rest.takeWhile isNumberByte).length).rest = back :=
      List.append_cancel_left (htook.rest.symm.trans hsplit)
    refine ⟨_, fun hnil => hzero (by rw [hnil]; rfl), hall, ?_, ⟨htook.rest, htook.pos⟩, rfl, rfl⟩
    rw [← hrest] at hback
    exact hback
  · rintro ⟨text, hne, htext, hstop, htook, hdepth, hafter⟩
    have htake : r.rest.takeWhile isNumberByte = text := by
      rw [htook.rest]
      exact takeWhile_append_stop htext hstop
    dsimp only
    rw [htake, if_neg (by simpa using hne)]
    exact congrArg Except.ok (htook.advance_eq rfl hdepth hafter)

theorem literal_eq_some {r r' : Reader} {word : Bytes} : r.literal word = some r' ↔
    r.Took word r' ∧ r'.depth = r.depth ∧ r'.afterValue = true := by
  unfold literal
  constructor
  · intro h
    split_ifs at h with htake
    cases h
    have hsplit : r.rest = word ++ r.rest.drop word.length := by
      nth_rewrite 1 [← List.take_append_drop word.length r.rest]
      rw [htake]
    have htook := r.took_advance hsplit
    exact ⟨⟨htook.rest, htook.pos⟩, rfl, rfl⟩
  · rintro ⟨htook, hdepth, hafter⟩
    rw [htook.rest, List.take_left, if_pos rfl]
    exact congrArg some (htook.advance_eq rfl hdepth hafter)

/-- A word of the language. -/
theorem skipWord_eq_ok {r r' : Reader} :
    (match (r.literal (ascii "true")).orElse fun _ =>
        (r.literal (ascii "false")).orElse fun _ => r.literal (ascii "null") with
      | some r => Except.ok r
      | none => .error (r.unexpected "value")) = .ok r' ↔
    ∃ word, (word = ascii "true" ∨ word = ascii "false" ∨ word = ascii "null") ∧ r.Took word r' ∧
      r'.depth = r.depth ∧ r'.afterValue = true := by
  have hother : ∀ {word word' : Bytes}, r.Took word' r' → ¬ word <+: word' ++ r'.rest →
      r.literal word = none := by
    intro word word' htook hnot
    rw [literal, if_neg]
    intro htake
    exact hnot (by rw [← htook.rest, ← htake]; exact List.take_prefix ..)
  constructor
  · intro h
    cases htrue : r.literal (ascii "true") with
    | some m =>
        simp [htrue] at h
        exact ⟨_, .inl rfl, literal_eq_some.mp (by rw [htrue, h])⟩
    | none =>
        cases hfalse : r.literal (ascii "false") with
        | some m =>
            simp [htrue, hfalse] at h
            exact ⟨_, .inr (.inl rfl), literal_eq_some.mp (by rw [hfalse, h])⟩
        | none =>
            cases hnull : r.literal (ascii "null") with
            | some m =>
                simp [htrue, hfalse, hnull] at h
                exact ⟨_, .inr (.inr rfl), literal_eq_some.mp (by rw [hnull, h])⟩
            | none => simp [htrue, hfalse, hnull] at h
  · rintro ⟨word, rfl | rfl | rfl, htook, hdepth, hafter⟩
    · rw [literal_eq_some.mpr ⟨htook, hdepth, hafter⟩]
      rfl
    · rw [hother htook (by simp [ascii, List.cons_prefix_cons]),
        literal_eq_some.mpr ⟨htook, hdepth, hafter⟩]
      rfl
    · rw [hother htook (by simp [ascii, List.cons_prefix_cons]),
        hother htook (by simp [ascii, List.cons_prefix_cons]),
        literal_eq_some.mpr ⟨htook, hdepth, hafter⟩]
      rfl

/-! ## §3 Members -/

/-- The opening of a container. -/
theorem enter_eq_ok {r r' : Reader} {byte : UInt8} {expected : String}
    (hbyte : isWhitespace byte = false) : r.enter byte expected = .ok r' ↔
      r.depth < maxDepth ∧ ∃ w, White w ∧ r.Took (w ++ [byte]) r' ∧ r'.depth = r.depth + 1 ∧
        r'.afterValue = false := by
  unfold enter
  rw [except_bind_eq_ok]
  constructor
  · rintro ⟨r₁, hexpect, h⟩
    obtain ⟨w, hw, htook, hdepth, -⟩ := (expectByte_eq_ok hbyte).mp hexpect
    split_ifs at h with hdeep
    cases h
    exact ⟨by omega, w, hw, ⟨htook.rest, htook.pos⟩, by simp [hdepth], rfl⟩
  · rintro ⟨hroom, w, hw, htook, hdepth, hafter⟩
    refine ⟨{ r' with depth := r.depth, afterValue := r.afterValue },
      (expectByte_eq_ok hbyte).mpr ⟨w, hw, ⟨htook.rest, htook.pos⟩, rfl, rfl⟩, ?_⟩
    rw [if_neg (by simp; omega)]
    simp [← hdepth, ← hafter]

/-- The end of a container. -/
theorem nextMember_closed {r r' : Reader} {close : UInt8} {expected : String}
    (hclose : isWhitespace close = false) : r.nextMember close expected = .ok (false, r') ↔
      ∃ w, White w ∧ r.Took (w ++ [close]) r' ∧ r'.depth = r.depth - 1 ∧ r'.afterValue = true := by
  unfold nextMember
  constructor
  · obtain ⟨w, hw, htook, hdepth, -, -⟩ := r.skipWhitespace_took
    intro h
    dsimp only at h
    split_ifs at h with hpeek hafter
    · simp only [Except.ok.injEq, Prod.mk.injEq, true_and] at h
      subst h
      obtain ⟨back, hback⟩ := List.head?_eq_some_iff.mp hpeek
      have hall := htook.trans (took_advance _ (show _ = [close] ++ back from hback))
      exact ⟨w, hw, ⟨hall.rest, hall.pos⟩, by simp [leave, hdepth], rfl⟩
    · obtain ⟨r₁, -, h⟩ := except_bind_eq_ok.mp h
      simp at h
    · simp at h
  · rintro ⟨w, hw, htook, hdepth, hafter⟩
    have hrest : r.rest = w ++ close :: r'.rest := by rw [htook.rest]; simp
    have hskip := skipWhitespace_eq hw hrest (by simpa using hclose)
    dsimp only
    rw [hskip, if_pos (by simp [peek])]
    congr 2
    refine Took.unique (r := r) ⟨?_, ?_⟩ htook ?_ hafter.symm
    · simp [leave, advance, hrest]
    · simp [leave, advance, Nat.add_assoc]
    · simp [leave, hdepth]

/-- A member that is there: the reader is behind the separator. Before the first
member it stops at what is no white space. -/
theorem nextMember_more {r r' : Reader} {close : UInt8} {expected : String}
    (hclose : isWhitespace close = false) (hcomma : close ≠ 44) :
    r.nextMember close expected = .ok (true, r') ↔
      ∃ sep, (∃ w, White w ∧ sep = if r.afterValue then w ++ [44] else w) ∧ r.Took sep r' ∧
        r'.depth = r.depth ∧ r'.afterValue = r.afterValue ∧
        (r.afterValue = false → ∀ b ∈ r'.rest.head?, isWhitespace b = false ∧ b ≠ close) := by
  unfold nextMember
  obtain ⟨w, hw, htook, hdepth, hafter, hstop⟩ := r.skipWhitespace_took
  constructor
  · intro h
    dsimp only at h
    split_ifs at h with hpeek hflag
    · simp at h
    · obtain ⟨r₁, hexpect, h⟩ := except_bind_eq_ok.mp h
      simp only [Except.ok.injEq, Prod.mk.injEq, true_and] at h
      subst h
      rw [hafter] at hflag
      obtain ⟨w', hw', htook', hdepth', hafter'⟩ := (expectByte_eq_ok rfl).mp hexpect
      refine ⟨w ++ (w' ++ [44]), ⟨w ++ w', hw.append hw', by simp [hflag]⟩, htook.trans htook',
        hdepth'.trans hdepth, hafter'.trans hafter, by simp [hflag]⟩
    · simp only [Except.ok.injEq, Prod.mk.injEq, true_and] at h
      subst h
      rw [hafter] at hflag
      refine ⟨w, ⟨w, hw, by simp [hflag]⟩, htook, hdepth, hafter, fun _ b hb => ⟨hstop b hb, ?_⟩⟩
      rintro rfl
      exact hpeek hb
  · rintro ⟨sep, ⟨v, hv, hsep⟩, htook', hdepth', hafter', hstop'⟩
    cases hflag : r.afterValue with
    | true =>
        rw [hflag, if_pos rfl] at hsep
        subst hsep
        have hrest : r.rest = v ++ 44 :: r'.rest := by rw [htook'.rest]; simp
        have hskip := skipWhitespace_eq hv hrest (by intro b hb; cases hb; rfl)
        dsimp only
        rw [if_neg (by rw [hskip]; simpa [peek] using hcomma.symm), if_pos (by rw [hafter, hflag])]
        refine except_bind_eq_ok.mpr ⟨r', (expectByte_eq_ok rfl).mpr ⟨[], white_nil, ?_, ?_, ?_⟩, rfl⟩
        · rw [hskip]
          refine ⟨rfl, ?_⟩
          have hpos := htook'.pos
          simp at hpos ⊢
          omega
        · rw [hdepth', hdepth]
        · rw [hafter', hafter]
    | false =>
        rw [hflag, if_neg Bool.false_ne_true] at hsep
        subst hsep
        have hhead := hstop' hflag
        have hskip := skipWhitespace_eq hv htook'.rest fun b hb => (hhead b hb).1
        have hsame : r.skipWhitespace = r' := by
          rw [hskip]
          exact Took.unique (r := r) ⟨htook'.rest, rfl⟩ htook' hdepth'.symm hafter'.symm
        dsimp only
        rw [hsame, if_neg, if_neg]
        · rw [hafter', hflag]
          exact Bool.false_ne_true
        · intro hpeek
          exact (hhead close hpeek).2 rfl

/-- A separator up to where `next_member` stops, and white space behind that. -/
theorem separator_split {after : Bool} {sep : Bytes} (h : Separator after sep) : ∃ sep₁ w₁,
    (∃ v, White v ∧ sep₁ = if after then v ++ [44] else v) ∧ White w₁ ∧ sep = sep₁ ++ w₁ ∧
      (after = false → w₁ = []) := by
  cases after with
  | false => exact ⟨sep, [], ⟨sep, h, rfl⟩, white_nil, by simp, fun _ => rfl⟩
  | true =>
      obtain ⟨v, v', hv, hv', rfl⟩ := h
      exact ⟨v ++ [44], v', ⟨v, hv, rfl⟩, hv', by simp, by simp⟩

theorem separator_append {after : Bool} {sep w : Bytes}
    (h : ∃ v, White v ∧ sep = if after then v ++ [44] else v) (hw : White w) :
    Separator after (sep ++ w) := by
  obtain ⟨v, hv, rfl⟩ := h
  cases after with
  | false => exact hv.append hw
  | true => exact ⟨v, w, hv, hw, by simp⟩

/-- The end of an object. -/
theorem nextKey_none {r r' : Reader} : r.nextKey = .ok (none, r') ↔
    ∃ w, White w ∧ r.Took (w ++ [125]) r' ∧ r'.depth = r.depth - 1 ∧ r'.afterValue = true := by
  unfold nextKey
  rw [except_bind_eq_ok, ← nextMember_closed rfl]
  constructor
  · rintro ⟨⟨more, r₁⟩, hmember, h⟩
    cases more with
    | false =>
        simp at h
        rw [← h]
        exact hmember
    | true =>
        simp only [Bool.not_true, Bool.false_eq_true, if_false] at h
        obtain ⟨⟨key, r₂⟩, -, h⟩ := except_bind_eq_ok.mp h
        obtain ⟨r₃, -, h⟩ := except_bind_eq_ok.mp h
        simp at h
  · intro h
    exact ⟨(false, r'), h, rfl⟩

/-- A key and its colon. -/
theorem nextKey_some {r r' : Reader} {key : Bytes} : r.nextKey = .ok (some key, r') ↔
    Rfc8259.PlainName key ∧ ∃ sep w, Separator r.afterValue sep ∧ White w ∧
      r.Took (sep ++ 34 :: (key ++ 34 :: (w ++ [58]))) r' ∧ r'.depth = r.depth ∧
      r'.afterValue = false := by
  unfold nextKey
  rw [except_bind_eq_ok]
  constructor
  · rintro ⟨⟨more, r₁⟩, hmember, h⟩
    cases more with
    | false => simp at h
    | true =>
        simp only [Bool.not_true, Bool.false_eq_true, if_false] at h
        obtain ⟨⟨key', r₂⟩, hstr, h⟩ := except_bind_eq_ok.mp h
        obtain ⟨r₃, hcolon, h⟩ := except_bind_eq_ok.mp h
        simp only [Except.ok.injEq, Prod.mk.injEq, Option.some.injEq] at h
        obtain ⟨rfl, rfl⟩ := h
        obtain ⟨sep, ⟨v, hv, hsep⟩, htook₁, hdepth₁, -, -⟩ := (nextMember_more rfl (by decide)).mp hmember
        obtain ⟨hname, w, hw, htook₂, hdepth₂, -⟩ := str_eq_ok.mp hstr
        obtain ⟨w', hw', htook₃, hdepth₃, hafter₃⟩ := (expectByte_eq_ok rfl).mp hcolon
        have htook₃' : r₂.Took (w' ++ [58]) r₃ := ⟨htook₃.rest, htook₃.pos⟩
        refine ⟨hname, sep ++ w, w', ?_, hw', ?_, ?_, hafter₃⟩
        · exact separator_append ⟨v, hv, hsep⟩ hw
        · simpa using (htook₁.trans htook₂).trans htook₃'
        · exact (hdepth₃.trans hdepth₂).trans hdepth₁
  · rintro ⟨hname, sep, w, hsep, hw, htook, hdepth, hafter⟩
    obtain ⟨sep₁, w₁, hsep₁, hw₁, heq, hstop⟩ := separator_split hsep
    have hpieces : sep ++ 34 :: (key ++ 34 :: (w ++ [58])) =
        sep₁ ++ ((w₁ ++ 34 :: (key ++ [34])) ++ (w ++ [58])) := by simp [heq]
    rw [hpieces] at htook
    obtain ⟨r₁, htook₁, htook', hdepth₁, hafter₁⟩ := htook.split r.depth r.afterValue
    obtain ⟨r₂, htook₂, htook₃, hdepth₂, hafter₂⟩ := htook'.split r.depth true
    refine ⟨(true, r₁), (nextMember_more rfl (by decide)).mpr
      ⟨sep₁, hsep₁, htook₁, hdepth₁, hafter₁, fun hflag b hb => ?_⟩, ?_⟩
    · rw [htook₂.rest, hstop hflag] at hb
      cases hb
      exact ⟨rfl, by decide⟩
    · simp only [Bool.not_true, Bool.false_eq_true, if_false]
      refine except_bind_eq_ok.mpr ⟨(key, r₂), str_eq_ok.mpr
        ⟨hname, w₁, hw₁, htook₂, hdepth₂.trans hdepth₁.symm, hafter₂⟩, ?_⟩
      refine except_bind_eq_ok.mpr ⟨r', (expectByte_eq_ok rfl).mpr
        ⟨w, hw, ⟨htook₃.rest, htook₃.pos⟩, hdepth.trans hdepth₂.symm, hafter⟩, rfl⟩

/-! ## §4 Skip -/

/-- A container's end, or what goes on with it, is no part of a number. -/
theorem tail_stops {α : Type} {Core : α → Bytes → Prop} {close : UInt8} {as : List α} {t : Bytes}
    (h : Tail Core close true as t) (hclose : isNumberByte close = false) (back : Bytes) :
    ∀ b ∈ (t ++ back).head?, isNumberByte b = false := by
  have hwhite : ∀ (w : Bytes) (c : UInt8) (rest : Bytes), White w → isNumberByte c = false →
      ∀ b ∈ (w ++ c :: rest).head?, isNumberByte b = false := by
    intro w c rest hw hc b hb
    cases w with
    | nil =>
        cases hb
        exact hc
    | cons x w =>
        cases hb
        rcases hw b (by simp) with rfl | rfl | rfl | rfl <;> rfl
  rcases h.items with ⟨-, w, hw, rfl⟩ | ⟨w, body, hw, -, rfl⟩
  · have heq : w ++ [close] ++ back = w ++ close :: back := by simp
    rw [heq]
    exact hwhite w close back hw hclose
  · have heq : w ++ 44 :: (body ++ [close]) ++ back = w ++ 44 :: (body ++ [close] ++ back) := by simp
    rw [heq]
    exact hwhite w 44 _ hw rfl

section Loop

variable {α : Type} {Core : α → Bytes → Prop} {close : UInt8} {depth : Nat}
  {loop : Nat → Reader → Except JsonError Reader} {N : Reader → Reader → Prop}

/-- A loop over the members of a container, with a round for every byte: each round
ends the container or reads one more member. -/
theorem loop_eq_ok {r' : Reader} (hclose : isNumberByte close = false)
    (hcore : ∀ a c, Core a c → c ≠ [])
    (hsucc : ∀ rounds r, loop (rounds + 1) r = .ok r' ↔
      (∃ w, White w ∧ r.Took (w ++ [close]) r' ∧ r'.depth = r.depth - 1 ∧ r'.afterValue = true) ∨
        ∃ r₁, N r r₁ ∧ loop rounds r₁ = .ok r')
    (hnext : ∀ r r₁, r.depth = depth → N r r₁ → ∃ a sep c, Separator r.afterValue sep ∧
      Core a c ∧ r.Took (sep ++ c) r₁ ∧ r₁.depth = r.depth ∧ r₁.afterValue = true)
    (hnext' : ∀ r r₁ a sep c, r.depth = depth → Separator r.afterValue sep → Core a c →
      r.Took (sep ++ c) r₁ → r₁.depth = r.depth → r₁.afterValue = true →
      (∀ b ∈ r₁.rest.head?, isNumberByte b = false) → N r r₁) :
    ∀ (rounds : Nat) (r : Reader), r.rest.length < rounds → r.depth = depth →
      (loop rounds r = .ok r' ↔ ∃ as front, Tail Core close r.afterValue as front ∧
        r.Took front r' ∧ r'.depth = r.depth - 1 ∧ r'.afterValue = true) := by
  intro rounds
  induction rounds with
  | zero => intro r h; omega
  | succ rounds ih =>
      intro r hrounds hdepth
      -- A member takes at least one byte.
      have hshorter : ∀ {sep c : Bytes} {a : α} {r₁ : Reader}, Core a c → r.Took (sep ++ c) r₁ →
          r₁.rest.length < rounds := by
        intro sep c a r₁ hc htook
        have hlen := congrArg List.length htook.rest
        have hpos := List.length_pos_iff.mpr (hcore a c hc)
        simp only [List.length_append] at hlen
        omega
      rw [hsucc]
      constructor
      · rintro (⟨w, hw, htook, hdepth', hafter'⟩ | ⟨r₁, hmember, hloop⟩)
        · exact ⟨[], _, .close hw, htook, hdepth', hafter'⟩
        · obtain ⟨a, sep, c, hsep, hc, htook, hdepth₁, hafter₁⟩ := hnext r r₁ hdepth hmember
          obtain ⟨as, front, htail, htook', hdepth', hafter'⟩ :=
            (ih r₁ (hshorter hc htook) (hdepth₁.trans hdepth)).mp hloop
          rw [hafter₁] at htail
          refine ⟨a :: as, sep ++ (c ++ front), .more hsep hc htail, ?_, by rw [hdepth', hdepth₁],
            hafter'⟩
          simpa using htook.trans htook'
      · rintro ⟨as, front, htail, htook, hdepth', hafter'⟩
        cases htail with
        | close hw => exact .inl ⟨_, hw, htook, hdepth', hafter'⟩
        | @more _ a as sep c t hsep hc ht =>
            have hpieces : sep ++ (c ++ t) = (sep ++ c) ++ t := by simp
            rw [hpieces] at htook
            obtain ⟨r₁, htook₁, htook', hdepth₁, hafter₁⟩ := htook.split r.depth true
            refine .inr ⟨r₁, hnext' r r₁ a sep c hdepth hsep hc htook₁ hdepth₁ hafter₁ ?_, ?_⟩
            · rw [htook'.rest]
              exact tail_stops ht hclose r'.rest
            · refine (ih r₁ (hshorter hc htook₁) (hdepth₁.trans hdepth)).mpr
                ⟨as, t, by rw [hafter₁]; exact ht, htook', by rw [hdepth', hdepth₁], hafter'⟩

end Loop

/-- What the reader takes for a value that is no container. -/
def Scalar (text : Bytes) : Prop :=
  text = ascii "true" ∨ text = ascii "false" ∨ text = ascii "null" ∨
    (∃ s, Chars AnyEscape s ∧ text = 34 :: (s ++ [34])) ∨ NumberToken text

/-- What the reader takes for a value of nesting `n`. -/
abbrev JsonValue (n : Nat) (text : Bytes) : Prop := Value Rfc8259.PlainName Scalar n text

/-- Skipping took a value, and all of it if it is a number. -/
def Skipped (n : Nat) (r r' : Reader) : Prop :=
  ∃ w v, White w ∧ JsonValue n v ∧ r.Took (w ++ v) r' ∧
    (NumberToken v → ∀ b ∈ r'.rest.head?, isNumberByte b = false) ∧ r'.depth = r.depth ∧
    r'.afterValue = true

theorem scalar_value {n : Nat} {v : Bytes} (h : Scalar v) : JsonValue n v := by
  cases n with
  | zero => exact h
  | succ n => exact .inl h

theorem jsonValue_cases {n : Nat} {v : Bytes} (h : JsonValue n v) : Scalar v ∨ ∃ m, n = m + 1 ∧
    ((∃ members body, Listed (PaddedItem (Member Rfc8259.PlainName (JsonValue m))) members body ∧
      v = 123 :: (body ++ [125])) ∨
    ∃ elements body, Listed (PaddedItem (Element (JsonValue m))) elements body ∧
      v = 91 :: (body ++ [93])) := by
  cases n with
  | zero => exact .inl h
  | succ n =>
      rcases h with h | h
      · exact .inl h
      · exact .inr ⟨n, rfl, h⟩

/-- How a value begins. -/
theorem jsonValue_head : ∀ {n : Nat} {v : Bytes}, JsonValue n v → ∃ b rest, v = b :: rest ∧
    (b = 123 ∨ b = 91 ∨ b = 34 ∨ b = 116 ∨ b = 102 ∨ b = 110 ∨ b = 45 ∨ isDigit b = true) := by
  have hscalar : ∀ {v : Bytes}, Scalar v → ∃ b rest, v = b :: rest ∧
      (b = 123 ∨ b = 91 ∨ b = 34 ∨ b = 116 ∨ b = 102 ∨ b = 110 ∨ b = 45 ∨ isDigit b = true) := by
    rintro v (rfl | rfl | rfl | ⟨s, -, rfl⟩ | ⟨⟨b, rest, rfl, hb⟩, -⟩)
    · exact ⟨116, ascii "rue", rfl, by simp⟩
    · exact ⟨102, ascii "alse", rfl, by simp⟩
    · exact ⟨110, ascii "ull", rfl, by simp⟩
    · exact ⟨34, _, rfl, by simp⟩
    · exact ⟨b, rest, rfl, by rcases hb with rfl | hb <;> simp [*]⟩
  intro n v h
  cases n with
  | zero => exact hscalar h
  | succ n =>
      rcases h with h | ⟨members, body, -, rfl⟩ | ⟨elements, body, -, rfl⟩
      · exact hscalar h
      · exact ⟨123, _, rfl, by simp⟩
      · exact ⟨91, _, rfl, by simp⟩

/-- A value begins with none of the bytes that stand between values. -/
theorem jsonValue_head_ne {n : Nat} {v : Bytes} (h : JsonValue n v) : ∃ b rest, v = b :: rest ∧
    isWhitespace b = false ∧ b ≠ 93 := by
  obtain ⟨b, rest, rfl, hb⟩ := jsonValue_head h
  have hne : ∀ c : UInt8, c = 32 ∨ c = 9 ∨ c = 10 ∨ c = 13 ∨ c = 93 → b ≠ c := by
    rintro c hc rfl
    rcases hc with rfl | rfl | rfl | rfl | rfl <;> revert hb <;> decide
  refine ⟨b, rest, rfl, ?_, hne 93 (by simp)⟩
  simp [isWhitespace, hne 32, hne 9, hne 10, hne 13]

theorem skipMembers_succ {skip : Reader → Except JsonError Reader} {rounds : Nat} {r r' : Reader} :
    skipMembers skip (rounds + 1) r = .ok r' ↔ r.nextKey = .ok (none, r') ∨
      ∃ r₁, (∃ key m, r.nextKey = .ok (some key, m) ∧ skip m = .ok r₁) ∧
        skipMembers skip rounds r₁ = .ok r' := by
  rw [skipMembers, except_bind_eq_ok]
  constructor
  · rintro ⟨⟨key, m⟩, hkey, h⟩
    cases key with
    | none =>
        simp at h
        exact .inl (by rw [hkey, h])
    | some key =>
        simp only [Option.isNone_some, Bool.false_eq_true, if_false] at h
        obtain ⟨r₁, hskip, h⟩ := except_bind_eq_ok.mp h
        exact .inr ⟨r₁, ⟨key, m, hkey, hskip⟩, h⟩
  · rintro (hkey | ⟨r₁, ⟨key, m, hkey, hskip⟩, h⟩)
    · exact ⟨_, hkey, rfl⟩
    · refine ⟨_, hkey, ?_⟩
      simp only [Option.isNone_some, Bool.false_eq_true, if_false]
      exact except_bind_eq_ok.mpr ⟨r₁, hskip, h⟩

theorem skipElements_succ {skip : Reader → Except JsonError Reader} {rounds : Nat} {r r' : Reader} :
    skipElements skip (rounds + 1) r = .ok r' ↔ r.nextElement = .ok (false, r') ∨
      ∃ r₁, (∃ m, r.nextElement = .ok (true, m) ∧ skip m = .ok r₁) ∧
        skipElements skip rounds r₁ = .ok r' := by
  rw [skipElements, except_bind_eq_ok]
  constructor
  · rintro ⟨⟨more, m⟩, hmore, h⟩
    cases more with
    | false =>
        simp at h
        exact .inl (by rw [hmore, h])
    | true =>
        simp only [Bool.not_true, Bool.false_eq_true, if_false] at h
        obtain ⟨r₁, hskip, h⟩ := except_bind_eq_ok.mp h
        exact .inr ⟨r₁, ⟨m, hmore, hskip⟩, h⟩
  · rintro (hmore | ⟨r₁, ⟨m, hmore, hskip⟩, h⟩)
    · exact ⟨_, hmore, rfl⟩
    · refine ⟨_, hmore, ?_⟩
      simp only [Bool.not_true, Bool.false_eq_true, if_false]
      exact except_bind_eq_ok.mpr ⟨r₁, hskip, h⟩

section Level

variable {skip : Reader → Except JsonError Reader} {n depth : Nat}

/-- An object's members, given what `skip` does at their depth. -/
theorem skipMembers_eq_ok {r' : Reader}
    (hskip : ∀ r r', r.depth = depth → (skip r = .ok r' ↔ Skipped n r r')) :
    ∀ (rounds : Nat) (r : Reader), r.rest.length < rounds → r.depth = depth →
      (skipMembers skip rounds r = .ok r' ↔ ∃ members front,
        Tail (Member Rfc8259.PlainName (JsonValue n)) 125 r.afterValue members front ∧
          r.Took front r' ∧ r'.depth = r.depth - 1 ∧ r'.afterValue = true) := by
  refine loop_eq_ok
    (N := fun r r₁ => ∃ key m, r.nextKey = .ok (some key, m) ∧ skip m = .ok r₁) rfl
    ?_ ?_ ?_ ?_
  · rintro member c ⟨-, -, w, w', -, -, rfl⟩
    simp
  · intro rounds r
    rw [skipMembers_succ, nextKey_none]
  · rintro r r₁ hdepth ⟨key, m, hkey, hvalue⟩
    obtain ⟨hname, sep, w, hsep, hw, htook, hdepth', -⟩ := nextKey_some.mp hkey
    obtain ⟨w', v, hw', hv, htook', -, hdepth₁, hafter₁⟩ :=
      (hskip m r₁ (hdepth'.trans hdepth)).mp hvalue
    refine ⟨(key, v), sep, _, hsep, ⟨hname, hv, w, w', hw, hw', rfl⟩, ?_, hdepth₁.trans hdepth',
      hafter₁⟩
    simpa using htook.trans htook'
  · rintro r r₁ member sep c hdepth hsep ⟨hname, hv, w, w', hw, hw', rfl⟩ htook hdepth₁ hafter₁ hstop
    have hpieces : sep ++ 34 :: (member.1 ++ 34 :: (w ++ 58 :: (w' ++ member.2))) =
        (sep ++ 34 :: (member.1 ++ 34 :: (w ++ [58]))) ++ (w' ++ member.2) := by simp
    rw [hpieces] at htook
    obtain ⟨m, hm, htook', hmdepth, hmafter⟩ := htook.split r.depth false
    refine ⟨member.1, m, nextKey_some.mpr ⟨hname, sep, w, hsep, hw, hm, hmdepth, hmafter⟩, ?_⟩
    exact (hskip m r₁ (hmdepth.trans hdepth)).mpr ⟨w', member.2, hw', hv, htook', fun _ => hstop,
      hdepth₁.trans hmdepth.symm, hafter₁⟩

/-- An array's elements, given what `skip` does at their depth. -/
theorem skipElements_eq_ok {r' : Reader}
    (hskip : ∀ r r', r.depth = depth → (skip r = .ok r' ↔ Skipped n r r')) :
    ∀ (rounds : Nat) (r : Reader), r.rest.length < rounds → r.depth = depth →
      (skipElements skip rounds r = .ok r' ↔ ∃ elements front,
        Tail (Element (JsonValue n)) 93 r.afterValue elements front ∧
          r.Took front r' ∧ r'.depth = r.depth - 1 ∧ r'.afterValue = true) := by
  refine loop_eq_ok
    (N := fun r r₁ => ∃ m, r.nextElement = .ok (true, m) ∧ skip m = .ok r₁) rfl
    ?_ ?_ ?_ ?_
  · rintro v c ⟨hv, rfl⟩
    obtain ⟨b, rest, rfl, -⟩ := jsonValue_head hv
    simp
  · intro rounds r
    rw [skipElements_succ, nextElement, nextMember_closed rfl]
  · rintro r r₁ hdepth ⟨m, hmore, hvalue⟩
    obtain ⟨sep, ⟨w, hw, hsep⟩, htook, hdepth', -, -⟩ := (nextMember_more rfl (by decide)).mp hmore
    obtain ⟨w', v, hw', hv, htook', -, hdepth₁, hafter₁⟩ :=
      (hskip m r₁ (hdepth'.trans hdepth)).mp hvalue
    refine ⟨v, sep ++ w', v, ?_, ⟨hv, rfl⟩, ?_, hdepth₁.trans hdepth', hafter₁⟩
    · exact separator_append ⟨w, hw, hsep⟩ hw'
    · simpa using htook.trans htook'
  · rintro r r₁ v sep c hdepth hsep ⟨hv, rfl⟩ htook hdepth₁ hafter₁ hstop
    obtain ⟨sep₁, w₁, hsep₁, hw₁, rfl, hnil⟩ := separator_split hsep
    rw [List.append_assoc] at htook
    obtain ⟨m, hm, htook', hmdepth, hmafter⟩ := htook.split r.depth r.afterValue
    refine ⟨m, (nextMember_more rfl (by decide)).mpr
      ⟨sep₁, hsep₁, hm, hmdepth, hmafter, fun hflag b hb => ?_⟩, ?_⟩
    · obtain ⟨b', rest, rfl, hwhite, hclose⟩ := jsonValue_head_ne hv
      rw [htook'.rest, hnil hflag] at hb
      cases hb
      exact ⟨hwhite, hclose⟩
    · exact (hskip m r₁ (hmdepth.trans hdepth)).mpr ⟨w₁, c, hw₁, hv, htook', fun _ => hstop,
        hdepth₁.trans hmdepth.symm, hafter₁⟩

end Level

theorem not_numberToken_cons {b : UInt8} {rest : Bytes} (hb : b ≠ 45) (hdigit : isDigit b = false) :
    ¬ NumberToken (b :: rest) := by
  rintro ⟨⟨c, rest', heq, hc⟩, -⟩
  cases heq
  rcases hc with hc | hc
  · exact hb hc
  · rw [hdigit] at hc
    cases hc

/-- What `skip` takes is a value. -/
theorem skipLevels_sound {n : Nat} {r r' : Reader}
    (hskip : ∀ m, n = m + 1 → ∀ r r', r.depth + m = maxDepth →
      (skipLevels n r = .ok r' ↔ Skipped m r r'))
    (hdepth : r.depth + n = maxDepth) (h : skipLevels (n + 1) r = .ok r') : Skipped n r r' := by
  obtain ⟨w, hw, htook, hdepth₀, -, hstop⟩ := r.skipWhitespace_took
  rw [skipLevels] at h
  generalize r.skipWhitespace = r₀ at h htook hdepth₀ hstop
  cases hpeek : r₀.peek with
  | none => simp [hpeek] at h
  | some byte =>
      simp only [hpeek] at h
      split_ifs at h with hobject harray hquote hword hnumber
      · obtain ⟨r₁, hopen, h⟩ := except_bind_eq_ok.mp h
        obtain ⟨hroom, w₁, hw₁, htook₁, hdepth₁, hafter₁⟩ := (enter_eq_ok rfl).mp hopen
        obtain ⟨m, rfl⟩ : ∃ m, n = m + 1 := ⟨n - 1, by omega⟩
        obtain ⟨members, front, htail, htook', hdepth', hafter'⟩ :=
          (skipMembers_eq_ok (fun a b ha => hskip m rfl a b (by omega)) _ r₁ (Nat.lt_succ_self _)
            (show r₁.depth = r.depth + 1 by omega)).mp h
        rw [hafter₁] at htail
        obtain ⟨body, hbody, rfl⟩ := tail_iff_listed.mp htail
        refine ⟨w ++ w₁, 123 :: (body ++ [125]), hw.append hw₁, .inr (.inl ⟨members, body, hbody, rfl⟩),
          ?_, fun hn => absurd hn (not_numberToken_cons (by decide) rfl), by omega, hafter'⟩
        simpa using htook.trans (htook₁.trans htook')
      · obtain ⟨r₁, hopen, h⟩ := except_bind_eq_ok.mp h
        obtain ⟨hroom, w₁, hw₁, htook₁, hdepth₁, hafter₁⟩ := (enter_eq_ok rfl).mp hopen
        obtain ⟨m, rfl⟩ : ∃ m, n = m + 1 := ⟨n - 1, by omega⟩
        obtain ⟨elements, front, htail, htook', hdepth', hafter'⟩ :=
          (skipElements_eq_ok (fun a b ha => hskip m rfl a b (by omega)) _ r₁ (Nat.lt_succ_self _)
            (show r₁.depth = r.depth + 1 by omega)).mp h
        rw [hafter₁] at htail
        obtain ⟨body, hbody, rfl⟩ := tail_iff_listed.mp htail
        refine ⟨w ++ w₁, 91 :: (body ++ [93]), hw.append hw₁, .inr (.inr ⟨elements, body, hbody, rfl⟩),
          ?_, fun hn => absurd hn (not_numberToken_cons (by decide) rfl), by omega, hafter'⟩
        simpa using htook.trans (htook₁.trans htook')
      · subst hquote
        obtain ⟨text, htext, htook', hdepth', hafter'⟩ := (skipString_eq_ok hpeek).mp h
        exact ⟨w, _, hw, scalar_value (.inr (.inr (.inr (.inl ⟨text, htext, rfl⟩)))),
          htook.trans htook', fun hn => absurd hn (not_numberToken_cons (by decide) rfl),
          hdepth'.trans hdepth₀, hafter'⟩
      · obtain ⟨word, hwords, htook', hdepth', hafter'⟩ := skipWord_eq_ok.mp h
        refine ⟨w, word, hw, scalar_value ?_, htook.trans htook', ?_, hdepth'.trans hdepth₀, hafter'⟩
        · rcases hwords with rfl | rfl | rfl
          · exact .inl rfl
          · exact .inr (.inl rfl)
          · exact .inr (.inr (.inl rfl))
        · intro hn
          rcases hwords with rfl | rfl | rfl
          all_goals exact absurd hn (not_numberToken_cons (by decide) rfl)
      · obtain ⟨text, hne, htext, hstop', htook', hdepth', hafter'⟩ := skipNumber_eq_ok.mp h
        obtain ⟨b, rest, rfl⟩ := List.exists_cons_of_ne_nil hne
        have hb : b = byte := by
          rw [peek, htook'.rest] at hpeek
          exact Option.some.inj hpeek
        subst hb
        exact ⟨w, _, hw,
          scalar_value (.inr (.inr (.inr (.inr ⟨⟨b, rest, rfl, by simpa using hnumber⟩, htext⟩)))),
          htook.trans htook', fun _ => hstop', hdepth'.trans hdepth₀, hafter'⟩

/-- `skip` takes every value. -/
theorem skipLevels_complete {n : Nat} {r r' : Reader}
    (hskip : ∀ m, n = m + 1 → ∀ r r', r.depth + m = maxDepth →
      (skipLevels n r = .ok r' ↔ Skipped m r r'))
    (hdepth : r.depth + n = maxDepth) (h : Skipped n r r') : skipLevels (n + 1) r = .ok r' := by
  obtain ⟨w, v, hw, hv, htook, hstop, hdepth', hafter'⟩ := h
  obtain ⟨b, rest, hcons, hb⟩ := jsonValue_head hv
  obtain ⟨b', rest', hcons', hwhite, -⟩ := jsonValue_head_ne hv
  have hrest : r.rest = w ++ (v ++ r'.rest) := by rw [htook.rest, List.append_assoc]
  have hskipWhite := skipWhitespace_eq hw hrest (by
    intro c hc
    rw [hcons'] at hc
    cases hc
    exact hwhite)
  rw [skipLevels, hskipWhite]
  -- The reader in front of the value.
  generalize hr₀ : ({ r with rest := v ++ r'.rest, pos := r.pos + w.length } : Reader) = r₀
  have htook₀ : r₀.Took v r' := by
    subst hr₀
    refine ⟨rfl, ?_⟩
    rw [htook.pos, List.length_append, Nat.add_assoc]
  have hdepth₀ : r₀.depth = r.depth := by rw [← hr₀]
  have hpeek : ∀ c rest, v = c :: rest → r₀.peek = some c := by
    rintro c rest rfl
    rw [peek, htook₀.rest]
    rfl
  rcases jsonValue_cases hv with hscalar | ⟨m, rfl, hcontainer⟩
  · rcases hscalar with rfl | rfl | rfl | ⟨text, htext, rfl⟩ | hnumber
    · simp only [hpeek 116 (ascii "rue") rfl]
      exact skipWord_eq_ok.mpr ⟨_, .inl rfl, htook₀, hdepth'.trans hdepth₀.symm, hafter'⟩
    · simp only [hpeek 102 (ascii "alse") rfl]
      exact skipWord_eq_ok.mpr ⟨_, .inr (.inl rfl), htook₀, hdepth'.trans hdepth₀.symm, hafter'⟩
    · simp only [hpeek 110 (ascii "ull") rfl]
      exact skipWord_eq_ok.mpr ⟨_, .inr (.inr rfl), htook₀, hdepth'.trans hdepth₀.symm, hafter'⟩
    · simp only [hpeek 34 (text ++ [34]) rfl]
      exact (skipString_eq_ok (hpeek 34 (text ++ [34]) rfl)).mpr
        ⟨text, htext, htook₀, hdepth'.trans hdepth₀.symm, hafter'⟩
    · have htoken := hnumber
      obtain ⟨⟨c, rest'', rfl, hc⟩, hall⟩ := hnumber
      have hne : ∀ d : UInt8, d = 123 ∨ d = 91 ∨ d = 34 ∨ d = 116 ∨ d = 102 ∨ d = 110 → c ≠ d := by
        rintro d hd rfl
        rcases hd with rfl | rfl | rfl | rfl | rfl | rfl <;> revert hc <;> decide
      simp only [hpeek c rest'' rfl]
      rw [if_neg (hne 123 (by simp)), if_neg (hne 91 (by simp)), if_neg (hne 34 (by simp)),
        if_neg (by simp [hne 116, hne 102, hne 110]), if_pos (by simpa using hc)]
      exact skipNumber_eq_ok.mpr ⟨_, by simp, hall, hstop htoken, htook₀,
        hdepth'.trans hdepth₀.symm, hafter'⟩
  · rcases hcontainer with ⟨members, body, hbody, rfl⟩ | ⟨elements, body, hbody, rfl⟩
    · simp only [hpeek 123 (body ++ [125]) rfl]
      have hpieces : r₀.Took ([123] ++ (body ++ [125])) r' := htook₀
      obtain ⟨r₁, htook₁, htook', hdepth₁, hafter₁⟩ := hpieces.split (r.depth + 1) false
      refine except_bind_eq_ok.mpr ⟨r₁, (enter_eq_ok rfl).mpr
        ⟨by omega, [], white_nil, htook₁, by omega, hafter₁⟩, ?_⟩
      refine (skipMembers_eq_ok (fun a b ha => hskip m rfl a b (by omega)) _ r₁ (Nat.lt_succ_self _)
        hdepth₁).mpr ⟨members, body ++ [125], ?_, htook', by omega, hafter'⟩
      rw [hafter₁]
      exact tail_iff_listed.mpr ⟨body, hbody, rfl⟩
    · simp only [hpeek 91 (body ++ [93]) rfl]
      have hpieces : r₀.Took ([91] ++ (body ++ [93])) r' := htook₀
      obtain ⟨r₁, htook₁, htook', hdepth₁, hafter₁⟩ := hpieces.split (r.depth + 1) false
      refine except_bind_eq_ok.mpr ⟨r₁, (enter_eq_ok rfl).mpr
        ⟨by omega, [], white_nil, htook₁, by omega, hafter₁⟩, ?_⟩
      refine (skipElements_eq_ok (fun a b ha => hskip m rfl a b (by omega)) _ r₁ (Nat.lt_succ_self _)
        hdepth₁).mpr ⟨elements, body ++ [93], ?_, htook', by omega, hafter'⟩
      rw [hafter₁]
      exact tail_iff_listed.mpr ⟨body, hbody, rfl⟩

/-- What `skip` takes, at every depth. -/
theorem skipLevels_eq_ok : ∀ (n : Nat) (r r' : Reader), r.depth + n = maxDepth →
    (skipLevels (n + 1) r = .ok r' ↔ Skipped n r r') := by
  intro n
  induction n with
  | zero =>
      intro r r' hdepth
      have hnone : ∀ m, 0 = m + 1 → ∀ r r', r.depth + m = maxDepth →
          (skipLevels 0 r = .ok r' ↔ Skipped m r r') := by
        intro m hm
        omega
      exact ⟨skipLevels_sound hnone hdepth, skipLevels_complete hnone hdepth⟩
  | succ n ih =>
      intro r r' hdepth
      have hskip : ∀ m, n + 1 = m + 1 → ∀ r r', r.depth + m = maxDepth →
          (skipLevels (n + 1) r = .ok r' ↔ Skipped m r r') := by
        intro m hm
        obtain rfl : n = m := by omega
        exact ih
      exact ⟨skipLevels_sound hskip hdepth, skipLevels_complete hskip hdepth⟩

theorem skip_eq_ok {r r' : Reader} (hdepth : r.depth ≤ maxDepth) :
    r.skip = .ok r' ↔ Skipped (maxDepth - r.depth) r r' := by
  have hlevels : maxDepth + 1 - r.depth = (maxDepth - r.depth) + 1 := by omega
  rw [skip, hlevels]
  exact skipLevels_eq_ok _ r r' (by omega)

theorem finish_eq_ok {r : Reader} : r.finish = .ok () ↔ r.depth = 0 ∧ White r.rest := by
  obtain ⟨w, hw, htook, hdepth, -, hstop⟩ := r.skipWhitespace_took
  unfold finish
  dsimp only
  rw [hdepth]
  constructor
  · intro h
    split_ifs at h with hzero hempty
    have hnil : r.skipWhitespace.rest = [] := by simpa using hempty
    rw [htook.rest, hnil, List.append_nil]
    exact ⟨not_not.mp hzero, hw⟩
  · rintro ⟨hzero, hwhite⟩
    have hskip := skipWhitespace_eq hwhite (List.append_nil r.rest).symm (by simp)
    rw [if_neg (not_not.mpr hzero), hskip]
    rfl

/-- A document is one value of the grammar. -/
theorem skip_finish_iff (buf : Bytes) :
    (∃ r, (Reader.new buf).skip = .ok r ∧ r.finish = .ok ()) ↔
      Document Rfc8259.PlainName Scalar maxDepth buf := by
  have hdepth : (Reader.new buf).depth ≤ maxDepth := Nat.zero_le _
  constructor
  · rintro ⟨r, hskip, hfinish⟩
    obtain ⟨w, v, hw, hv, htook, -, -, -⟩ := (skip_eq_ok hdepth).mp hskip
    refine ⟨w, v, r.rest, hw, hv, (finish_eq_ok.mp hfinish).2, ?_⟩
    rw [← List.append_assoc]
    exact htook.rest
  · rintro ⟨w, v, w', hw, hv, hw', rfl⟩
    refine ⟨⟨w', (w ++ v).length, 0, true⟩, (skip_eq_ok hdepth).mpr
      ⟨w, v, hw, hv, ⟨by simp [Reader.new], by simp [Reader.new]⟩, ?_, rfl, rfl⟩,
      finish_eq_ok.mpr ⟨rfl, hw'⟩⟩
    intro _ b hb
    rcases hw' b (List.mem_of_mem_head? hb) with rfl | rfl | rfl | rfl <;> rfl

/-! ## §5 Runs -/

/-- The runs of the loop of `skip_string`. -/
inductive SkipsString : Reader → Except JsonError Reader → Prop
  | failed {r : Reader} {e : JsonError} (h : r.stringEnd = .error e) : SkipsString r (.error e)
  | closed {r : Reader} {found : Nat} (h : r.stringEnd = .ok found)
      (hclose : r.rest[found]? = some 34) :
      SkipsString r (.ok { r.advance (found + 1) with afterValue := true })
  | short {r : Reader} {found : Nat} (h : r.stringEnd = .ok found)
      (hescape : r.rest[found]? ≠ some 34) (hshort : found + 1 ≥ r.rest.length) :
      SkipsString r (.error .unexpectedEnd)
  | more {r : Reader} {found : Nat} {out : Except JsonError Reader} (h : r.stringEnd = .ok found)
      (hescape : r.rest[found]? ≠ some 34) (hlong : ¬ found + 1 ≥ r.rest.length)
      (hrest : SkipsString (r.advance (found + 2)) out) : SkipsString r out

mutual

/-- The runs of `skip`: its recursion and its loops, as long as they go on. -/
inductive Skips : Reader → Except JsonError Reader → Prop
  | object {r r₁ : Reader} {out : Except JsonError Reader}
      (hpeek : r.skipWhitespace.peek = some 123) (hopen : r.skipWhitespace.beginObject = .ok r₁)
      (h : SkipsMembers r₁ out) : Skips r out
  | objectFailed {r : Reader} {e : JsonError} (hpeek : r.skipWhitespace.peek = some 123)
      (hopen : r.skipWhitespace.beginObject = .error e) : Skips r (.error e)
  | array {r r₁ : Reader} {out : Except JsonError Reader}
      (hpeek : r.skipWhitespace.peek = some 91) (hopen : r.skipWhitespace.beginArray = .ok r₁)
      (h : SkipsElements r₁ out) : Skips r out
  | arrayFailed {r : Reader} {e : JsonError} (hpeek : r.skipWhitespace.peek = some 91)
      (hopen : r.skipWhitespace.beginArray = .error e) : Skips r (.error e)
  | string {r : Reader} {out : Except JsonError Reader} (hpeek : r.skipWhitespace.peek = some 34)
      (h : SkipsString (r.skipWhitespace.advance 1) out) : Skips r out
  | flat {r : Reader} (hobject : r.skipWhitespace.peek ≠ some 123)
      (harray : r.skipWhitespace.peek ≠ some 91) (hstring : r.skipWhitespace.peek ≠ some 34) :
      Skips r r.skip

/-- The runs of the loop over an object's members. -/
inductive SkipsMembers : Reader → Except JsonError Reader → Prop
  | failed {r : Reader} {e : JsonError} (h : r.nextKey = .error e) : SkipsMembers r (.error e)
  | closed {r r₁ : Reader} (h : r.nextKey = .ok (none, r₁)) : SkipsMembers r (.ok r₁)
  | valueFailed {r m : Reader} {key : Bytes} {e : JsonError} (h : r.nextKey = .ok (some key, m))
      (hvalue : Skips m (.error e)) : SkipsMembers r (.error e)
  | more {r m r₁ : Reader} {key : Bytes} {out : Except JsonError Reader}
      (h : r.nextKey = .ok (some key, m)) (hvalue : Skips m (.ok r₁)) (hrest : SkipsMembers r₁ out) :
      SkipsMembers r out

/-- The runs of the loop over an array's elements. -/
inductive SkipsElements : Reader → Except JsonError Reader → Prop
  | failed {r : Reader} {e : JsonError} (h : r.nextElement = .error e) : SkipsElements r (.error e)
  | closed {r r₁ : Reader} (h : r.nextElement = .ok (false, r₁)) : SkipsElements r (.ok r₁)
  | valueFailed {r m : Reader} {e : JsonError} (h : r.nextElement = .ok (true, m))
      (hvalue : Skips m (.error e)) : SkipsElements r (.error e)
  | more {r m r₁ : Reader} {out : Except JsonError Reader} (h : r.nextElement = .ok (true, m))
      (hvalue : Skips m (.ok r₁)) (hrest : SkipsElements r₁ out) : SkipsElements r out

end

/-- An escape takes two bytes. -/
theorem skipStringLoop_runs : ∀ (rounds : Nat) (r : Reader), r.rest.length < rounds →
    SkipsString r (skipStringLoop rounds r) := by
  intro rounds
  induction rounds with
  | zero => intro r h; omega
  | succ rounds ih =>
      intro r hrounds
      rw [skipStringLoop]
      cases hend : r.stringEnd with
      | error e => exact .failed hend
      | ok found =>
          change SkipsString r (if r.rest[found]? = some 34 then _ else _)
          split_ifs with hclose hshort
          · exact .closed hend hclose
          · exact .short hend hclose hshort
          · refine .more hend hclose hshort (ih _ ?_)
            simp only [advance, List.length_drop]
            omega

section RunLevel

variable {skip : Reader → Except JsonError Reader} {n depth : Nat}

/-- A key and a value take bytes. -/
theorem skipMembers_runs (hskip : ∀ r r', r.depth = depth → skip r = .ok r' → Skipped n r r')
    (hruns : ∀ r, r.depth = depth → Skips r (skip r)) :
    ∀ (rounds : Nat) (r : Reader), r.rest.length < rounds → r.depth = depth →
      SkipsMembers r (skipMembers skip rounds r) := by
  intro rounds
  induction rounds with
  | zero => intro r h; omega
  | succ rounds ih =>
      intro r hrounds hdepth
      rw [skipMembers]
      cases hkey : r.nextKey with
      | error e => exact .failed hkey
      | ok res =>
          obtain ⟨key, m⟩ := res
          cases key with
          | none => exact .closed hkey
          | some key =>
              obtain ⟨-, sep, w, -, -, htook, hdepth', -⟩ := nextKey_some.mp hkey
              have hrun := hruns m (hdepth'.trans hdepth)
              cases hvalue : skip m with
              | error e =>
                  rw [hvalue] at hrun
                  simpa [bind, Except.bind, hvalue] using SkipsMembers.valueFailed hkey hrun
              | ok r₁ =>
                  rw [hvalue] at hrun
                  obtain ⟨w', v, -, -, htook', -, hdepth₁, -⟩ :=
                    hskip m r₁ (hdepth'.trans hdepth) hvalue
                  have hlen := congrArg List.length (htook.trans htook').rest
                  simp only [List.length_append, List.length_cons] at hlen
                  have hrest := ih r₁ (by omega) ((hdepth₁.trans hdepth').trans hdepth)
                  simpa [bind, Except.bind, hvalue] using SkipsMembers.more hkey hrun hrest

/-- An element takes bytes. -/
theorem skipElements_runs (hskip : ∀ r r', r.depth = depth → skip r = .ok r' → Skipped n r r')
    (hruns : ∀ r, r.depth = depth → Skips r (skip r)) :
    ∀ (rounds : Nat) (r : Reader), r.rest.length < rounds → r.depth = depth →
      SkipsElements r (skipElements skip rounds r) := by
  intro rounds
  induction rounds with
  | zero => intro r h; omega
  | succ rounds ih =>
      intro r hrounds hdepth
      rw [skipElements]
      cases hmore : r.nextElement with
      | error e => exact .failed hmore
      | ok res =>
          obtain ⟨more, m⟩ := res
          cases more with
          | false => exact .closed hmore
          | true =>
              obtain ⟨sep, -, htook, hdepth', -, -⟩ := (nextMember_more rfl (by decide)).mp hmore
              have hrun := hruns m (hdepth'.trans hdepth)
              cases hvalue : skip m with
              | error e =>
                  rw [hvalue] at hrun
                  simpa [bind, Except.bind, hvalue] using SkipsElements.valueFailed hmore hrun
              | ok r₁ =>
                  rw [hvalue] at hrun
                  obtain ⟨w', v, -, hv, htook', -, hdepth₁, -⟩ :=
                    hskip m r₁ (hdepth'.trans hdepth) hvalue
                  obtain ⟨b, rest, rfl, -⟩ := jsonValue_head hv
                  have hlen := congrArg List.length (htook.trans htook').rest
                  simp only [List.length_append, List.length_cons] at hlen
                  have hrest := ih r₁ (by omega) ((hdepth₁.trans hdepth').trans hdepth)
                  simpa [bind, Except.bind, hvalue] using SkipsElements.more hmore hrun hrest

end RunLevel

/-- A level of `skip`, given the runs of the level inside it. -/
theorem skipLevels_runs_step {n : Nat} {r : Reader} (hdepth : r.depth + n = maxDepth)
    (hruns : ∀ m, n = m + 1 → ∀ r : Reader, r.depth + m = maxDepth → Skips r (skipLevels n r)) :
    Skips r (skipLevels (n + 1) r) := by
  obtain ⟨w, -, -, hdepth₀, -, -⟩ := r.skipWhitespace_took
  have hskip : r.skip = skipLevels (n + 1) r := by
    rw [skip]
    congr 1
    omega
  have hinner : ∀ m, n = m + 1 → ∀ r r', r.depth = maxDepth - m → skipLevels n r = .ok r' →
      Skipped m r r' := by
    rintro m rfl a b ha h
    exact (skipLevels_eq_ok m a b (by omega)).mp h
  by_cases hobject : r.skipWhitespace.peek = some 123
  · rw [skipLevels]
    simp only [hobject, if_pos]
    cases hopen : r.skipWhitespace.beginObject with
    | error e => exact .objectFailed hobject hopen
    | ok r₁ =>
        obtain ⟨hbound, -, -, -, hdepth₁, -⟩ := (enter_eq_ok rfl).mp hopen
        obtain ⟨m, rfl⟩ : ∃ m, n = m + 1 := ⟨n - 1, by omega⟩
        exact .object hobject hopen (skipMembers_runs (hinner m rfl)
          (fun a ha => hruns m rfl a (by omega)) _ r₁ (Nat.lt_succ_self _) (by omega))
  by_cases harray : r.skipWhitespace.peek = some 91
  · rw [skipLevels]
    simp only [harray, if_neg (show ¬ (91 : UInt8) = 123 by decide), if_pos]
    cases hopen : r.skipWhitespace.beginArray with
    | error e => exact .arrayFailed harray hopen
    | ok r₁ =>
        obtain ⟨hbound, -, -, -, hdepth₁, -⟩ := (enter_eq_ok rfl).mp hopen
        obtain ⟨m, rfl⟩ : ∃ m, n = m + 1 := ⟨n - 1, by omega⟩
        exact .array harray hopen (skipElements_runs (hinner m rfl)
          (fun a ha => hruns m rfl a (by omega)) _ r₁ (Nat.lt_succ_self _) (by omega))
  by_cases hstring : r.skipWhitespace.peek = some 34
  · rw [skipLevels]
    simp only [hstring, if_neg (show ¬ (34 : UInt8) = 123 by decide),
      if_neg (show ¬ (34 : UInt8) = 91 by decide), if_pos]
    refine .string hstring (skipStringLoop_runs _ _ ?_)
    simp only [advance, List.length_drop]
    omega
  · rw [← hskip]
    exact .flat hobject harray hstring

/-- Every run of `skip` comes to its end, with the result of `skip`. -/
theorem skipLevels_runs : ∀ (n : Nat) (r : Reader), r.depth + n = maxDepth →
    Skips r (skipLevels (n + 1) r) := by
  intro n
  induction n with
  | zero =>
      intro r hdepth
      exact skipLevels_runs_step hdepth fun m hm => by omega
  | succ n ih =>
      intro r hdepth
      refine skipLevels_runs_step hdepth fun m hm => ?_
      obtain rfl : n = m := by omega
      exact ih

theorem skip_runs {r : Reader} (hdepth : r.depth ≤ maxDepth) : Skips r r.skip := by
  have hlevels : maxDepth + 1 - r.depth = (maxDepth - r.depth) + 1 := by omega
  rw [skip, hlevels]
  exact skipLevels_runs _ r (by omega)

/-! ## §6 Grammar -/

theorem hexDigit_plain {b : UInt8} (h : Rfc8259.HexDigit b) : PlainByte b := by
  simp only [Rfc8259.HexDigit, Rfc8259.Digit, PlainByte, UInt8.le_iff_toNat_le, ne_eq,
    ← UInt8.toNat_inj, UInt8.reduceToNat] at h ⊢
  omega

/-- To the reader, `\u0041` is the escape `\u` and four plain bytes. -/
theorem chars_of_rfc {text : Bytes} (h : Chars Rfc8259.Escape text) : Chars AnyEscape text := by
  induction h with
  | nil => exact .nil
  | plain hb _ ih => exact .plain hb ih
  | escape he _ ih =>
      rcases he with ⟨b, -, rfl⟩ | ⟨a, b, c, d, ha, hb, hc, hd, rfl⟩
      · exact .escape ⟨b, rfl⟩ ih
      · have hhex := Chars.plain (hexDigit_plain ha) (.plain (hexDigit_plain hb)
          (.plain (hexDigit_plain hc) (.plain (hexDigit_plain hd) ih)))
        have hu : AnyEscape [117] := ⟨117, rfl⟩
        simpa using Chars.escape hu hhex

theorem digit_isDigit {b : UInt8} (h : Rfc8259.Digit b) : isDigit b = true := by
  simpa [isDigit, Rfc8259.Digit] using h

theorem digit_isNumberByte {b : UInt8} (h : Rfc8259.Digit b) : isNumberByte b = true := by
  simp [isNumberByte, digit_isDigit h]

theorem number_frac {t : Bytes} (h : Rfc8259.Frac t) : ∀ b ∈ t, isNumberByte b = true := by
  rcases h with rfl | ⟨ds, rfl, -, hds⟩
  · simp
  · intro b hb
    rcases List.mem_cons.mp hb with rfl | hb
    · rfl
    · exact digit_isNumberByte (hds b hb)

theorem number_exp {t : Bytes} (h : Rfc8259.Exp t) : ∀ b ∈ t, isNumberByte b = true := by
  rcases h with rfl | ⟨e, sign, ds, he, hsign, ⟨-, hds⟩, rfl⟩
  · simp
  · intro b hb
    rcases List.mem_cons.mp hb with rfl | hb
    · rcases he with rfl | rfl <;> rfl
    · rcases List.mem_append.mp hb with hb | hb
      · rcases hsign with rfl | rfl | rfl
        · simp at hb
        · cases List.mem_singleton.mp hb; rfl
        · cases List.mem_singleton.mp hb; rfl
      · exact digit_isNumberByte (hds b hb)

/-- A number begins with a digit, behind its sign. -/
theorem number_int {t : Bytes} (h : Rfc8259.Int t) :
    ∃ d ds, t = d :: ds ∧ Rfc8259.Digit d ∧ ∀ b ∈ ds, Rfc8259.Digit b := by
  rcases h with rfl | ⟨d, ds, rfl, hd, -, hds⟩
  · exact ⟨48, [], rfl, by simp [Rfc8259.Digit], by simp⟩
  · exact ⟨d, ds, rfl, hd, hds⟩

theorem number_token {t : Bytes} (h : Rfc8259.Number t) : NumberToken t := by
  obtain ⟨minus, int, frac, exp, hminus, hint, hfrac, hexp, rfl⟩ := h
  obtain ⟨d, ds, rfl, hd, hds⟩ := number_int hint
  refine ⟨?_, ?_⟩
  · rcases hminus with rfl | rfl
    · exact ⟨d, _, rfl, .inr (digit_isDigit hd)⟩
    · exact ⟨45, _, rfl, .inl rfl⟩
  · simp only [List.mem_append, List.mem_cons]
    rintro b (hb | (rfl | hb) | hb | hb)
    · rcases hminus with rfl | rfl
      · simp at hb
      · cases List.mem_singleton.mp hb; rfl
    · exact digit_isNumberByte hd
    · exact digit_isNumberByte (hds b hb)
    · exact number_frac hfrac b hb
    · exact number_exp hexp b hb

theorem scalar_of_rfc {t : Bytes} (h : Rfc8259.Scalar t) : Scalar t := by
  rcases h with h | h | h | ⟨s, hs, -, rfl⟩ | h
  · exact .inl h
  · exact .inr (.inl h)
  · exact .inr (.inr (.inl h))
  · exact .inr (.inr (.inr (.inl ⟨s, chars_of_rfc hs, rfl⟩)))
  · exact .inr (.inr (.inr (.inr (number_token h))))

theorem document_of_rfc {n : Nat} {buf : Bytes}
    (h : Document Rfc8259.PlainName Rfc8259.Scalar n buf) :
    Document Rfc8259.PlainName Scalar n buf := by
  obtain ⟨w, v, w', hw, hv, hw', rfl⟩ := h
  exact ⟨w, v, w', hw, Value.mono (fun _ hname => hname) (fun _ => scalar_of_rfc) n v hv, hw', rfl⟩

/-- `skip` and `finish` accept the documents of the reader's grammar and no others,
those of RFC 8259 with plain names among them. A successful `skip`, wherever the
reader stands, takes white space and one value, all of it if it is a number, and
leaves the reader in the container it was in. Its recursion ends on every input. -/
theorem skip_accepts_grammar :
    (∀ buf, (∃ r, (Reader.new buf).skip = .ok r ∧ r.finish = .ok ()) ↔
      Document Rfc8259.PlainName Scalar maxDepth buf) ∧
    (∀ r r' : Reader, r.depth ≤ maxDepth → r.skip = .ok r' →
      ∃ w v, White w ∧ Value Rfc8259.PlainName Scalar (maxDepth - r.depth) v ∧
        r.rest = (w ++ v) ++ r'.rest ∧ r'.pos = r.pos + (w ++ v).length ∧
        (NumberToken v → ∀ b ∈ r'.rest.head?, isNumberByte b = false) ∧ r'.depth = r.depth) ∧
    (∀ buf, Document Rfc8259.PlainName Rfc8259.Scalar maxDepth buf →
      ∃ r, (Reader.new buf).skip = .ok r ∧ r.finish = .ok ()) ∧
    ∀ r : Reader, r.depth ≤ maxDepth → Skips r r.skip := by
  refine ⟨skip_finish_iff, ?_, ?_, fun _ => skip_runs⟩
  · intro r r' hdepth h
    obtain ⟨w, v, hw, hv, htook, hstop, hdepth', -⟩ := (skip_eq_ok hdepth).mp h
    exact ⟨w, v, hw, hv, htook.rest, htook.pos, hstop, hdepth'⟩
  · intro buf h
    exact (skip_finish_iff buf).mpr (document_of_rfc h)

theorem rfc_array_document : Document Rfc8259.PlainName Rfc8259.Scalar maxDepth (ascii " [1]") := by
  have hone : Rfc8259.Number [49] :=
    ⟨[], [49], [], [], .inl rfl, .inr ⟨49, [], rfl, by simp [Rfc8259.Digit], by decide, by simp⟩,
      .inl rfl, .inl rfl, rfl⟩
  have hvalue : Value Rfc8259.PlainName Rfc8259.Scalar 31 [49] :=
    .inl (.inr (.inr (.inr (.inr hone))))
  exact ⟨[32], ascii "[1]", [], by simp [White], .inr (.inr ⟨[[49]], [49],
    .inr (.one ⟨[], [49], [], white_nil, ⟨hvalue, rfl⟩, white_nil, rfl⟩), by decide +kernel⟩),
    white_nil, by decide +kernel⟩

theorem skip_accepts_array :
    (∃ r, (Reader.new (ascii " [1]")).skip = .ok r ∧ r.finish = .ok ()) ∧
      Skips (Reader.new (ascii " [1]")) (Reader.new (ascii " [1]")).skip :=
  ⟨skip_accepts_grammar.2.2.1 _ rfc_array_document, skip_accepts_grammar.2.2.2 _ (by decide)⟩

end Reader

end Bowst.Venue
