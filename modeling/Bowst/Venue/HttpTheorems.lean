/-
Bowst.Venue.HttpTheorems — the framing of a response decides its body, and a
response cut short is never taken for another one.

Every lemma about a reader is about a response cut at any byte: `k` is how many
bytes of it arrived. The head is found where its empty line is, or not at all
(`parseResponse_take`); a chunk is read when all of it arrived, and is an error
if not (`decodeChunked_text`). The whole response is the case of the last `k`.

  §1 Lines   — header lines, and the framing line among them.
  §2 Head    — from the bytes of a response to what follows its head.
  §3 Chunks  — one chunk, and all of them.
  §4 Framing — both framings of a body.
  §5 Get     — what the connection may do.
-/
import Bowst.Venue.Http

namespace Bowst.Venue

open Bowst.Core Bowst.Lib

/-! ## §1 Lines -/

theorem splitOnce_eq {sep : UInt8} (after : Bytes) : ∀ {before : Bytes}, sep ∉ before →
    splitOnce sep (before ++ sep :: after) = some (before, after) := by
  intro before
  induction before with
  | nil => intro _; simp [splitOnce]
  | cons b before ih =>
      intro h
      simp only [List.mem_cons, not_or] at h
      simp [splitOnce, Ne.symm h.1, ih h.2]

/-- The separator after a header's name is in no name that the client knows. -/
theorem not_mem_of_eqIgnoreAsciiCase {name known : Bytes} (h : eqIgnoreAsciiCase name known = true)
    (hknown : (58 : UInt8) ∉ known.map toAsciiLowercase) : (58 : UInt8) ∉ name := by
  intro hmem
  have heq : name.map toAsciiLowercase = known.map toAsciiLowercase := of_decide_eq_true h
  refine hknown (heq ▸ ?_)
  exact List.mem_map.mpr ⟨58, hmem, by decide⟩

/-- Nothing said about the framing of the body. -/
def Headers.unframed (response : Response) : Headers := ⟨response, none, false⟩

/-- What a header line can do: say how the body is framed, or nothing about it,
and then it is read alike whatever was said before. -/
theorem readHeader_cases {r : Response} {length : Option Nat} {chunked : Bool} {line : Bytes}
    {headers : Headers} (h : readHeader ⟨r, length, chunked⟩ line = .ok headers) :
    headers.contentLength.isSome = true ∨ headers.chunked = true ∨
      ∃ r', headers = ⟨r', length, chunked⟩ ∧
        ∀ length chunked, readHeader ⟨r, length, chunked⟩ line = .ok ⟨r', length, chunked⟩ := by
  unfold readHeader at h ⊢
  cases hsplit : splitOnce 58 line with
  | none => simp [hsplit] at h
  | some pair =>
      obtain ⟨name, value⟩ := pair
      simp only [hsplit] at h ⊢
      by_cases hlength : eqIgnoreAsciiCase name (ascii "content-length") = true
      · rw [if_pos hlength] at h
        left
        split at h
        · cases h
        · split at h
          · cases h
          · cases h
            rfl
      by_cases htransfer : eqIgnoreAsciiCase name (ascii "transfer-encoding") = true
      · rw [if_neg hlength, if_pos htransfer] at h
        right; left
        split at h
        · cases h
          rfl
        · cases h
      right; right
      simp only [if_neg hlength, if_neg htransfer] at h ⊢
      by_cases hcontent : eqIgnoreAsciiCase name (ascii "content-encoding") = true
      · simp only [if_pos hcontent] at h ⊢
        by_cases hidentity : eqIgnoreAsciiCase (trim value) (ascii "identity") = true
        · simp only [if_pos hidentity] at h ⊢
          cases h
          exact ⟨r, rfl, fun _ _ => rfl⟩
        · rw [if_neg hidentity] at h
          cases h
      simp only [if_neg hcontent] at h ⊢
      by_cases hweight : eqIgnoreAsciiCase name (ascii "x-mbx-used-weight-1m") = true
      · simp only [if_pos hweight] at h ⊢
        cases h
        exact ⟨_, rfl, fun _ _ => rfl⟩
      simp only [if_neg hweight] at h ⊢
      by_cases hretry : eqIgnoreAsciiCase name (ascii "retry-after") = true
      · simp only [if_pos hretry] at h ⊢
        cases h
        exact ⟨_, rfl, fun _ _ => rfl⟩
      · simp only [if_neg hretry] at h ⊢
        cases h
        exact ⟨r, rfl, fun _ _ => rfl⟩

/-- A line that leaves nothing said about the framing found nothing said, and is
read alike whatever was. -/
theorem readHeader_frame {headers : Headers} {r' : Response} {line : Bytes}
    (h : readHeader headers line = .ok (.unframed r')) :
    ∃ r, headers = .unframed r ∧ ∀ length chunked,
      readHeader ⟨r, length, chunked⟩ line = .ok ⟨r', length, chunked⟩ := by
  obtain ⟨r, length, chunked⟩ := headers
  rcases readHeader_cases h with hlength | hchunked | ⟨r₁, heq, hframe⟩
  · cases hlength
  · cases hchunked
  · simp only [Headers.unframed, Headers.mk.injEq] at heq
    obtain ⟨rfl, rfl, rfl⟩ := heq
    exact ⟨r, rfl, hframe⟩

theorem readHeaders_keeps : ∀ {lines : List Bytes} {headers : Headers} {r : Response},
    readHeaders headers lines = .ok (.unframed r) → ∃ r', headers = .unframed r' := by
  intro lines
  induction lines with
  | nil =>
      intro headers r h
      simp only [readHeaders, Except.ok.injEq] at h
      exact ⟨r, h⟩
  | cons line lines ih =>
      intro headers r h
      rw [readHeaders] at h
      cases hline : readHeader headers line with
      | error err => simp [hline] at h
      | ok headers' =>
          simp only [hline] at h
          obtain ⟨r', rfl⟩ := ih h
          obtain ⟨r₁, hheaders, _⟩ := readHeader_frame hline
          exact ⟨r₁, hheaders⟩

theorem readHeaders_frame : ∀ {lines : List Bytes} {r r' : Response},
    readHeaders (.unframed r) lines = .ok (.unframed r') → ∀ length chunked,
    readHeaders ⟨r, length, chunked⟩ lines = .ok ⟨r', length, chunked⟩ := by
  intro lines
  induction lines with
  | nil =>
      intro r r' h length chunked
      simp [readHeaders, Headers.unframed] at h
      simp [readHeaders, h]
  | cons line lines ih =>
      intro r r' h length chunked
      rw [readHeaders] at h ⊢
      cases hline : readHeader (.unframed r) line with
      | error err => simp [hline] at h
      | ok headers =>
          simp only [hline] at h
          obtain ⟨r₁, rfl⟩ := readHeaders_keeps h
          obtain ⟨r₀, hr₀, hframe⟩ := readHeader_frame hline
          cases hr₀
          rw [hframe length chunked]
          exact ih h length chunked

/-- One framing line among lines that say nothing about the framing. -/
theorem readHeaders_insert {framing : Bytes} {length : Option Nat} {chunked : Bool}
    (hframing : ∀ r, readHeader (.unframed r) framing = .ok ⟨r, length, chunked⟩)
    (after : List Bytes) : ∀ {before : List Bytes} {r r' : Response},
    readHeaders (.unframed r) (before ++ after) = .ok (.unframed r') →
    readHeaders (.unframed r) (before ++ framing :: after) = .ok ⟨r', length, chunked⟩ := by
  intro before
  induction before with
  | nil =>
      intro r r' h
      rw [List.nil_append, readHeaders, hframing]
      exact readHeaders_frame h length chunked
  | cons line before ih =>
      intro r r' h
      rw [List.cons_append, readHeaders] at h ⊢
      cases hline : readHeader (.unframed r) line with
      | error err => simp [hline] at h
      | ok headers =>
          simp only [hline] at h ⊢
          obtain ⟨r₁, rfl⟩ := readHeaders_keeps h
          exact ih h

/-- A header line that announces a body of `length` bytes. -/
def ContentLengthLine (length : Nat) (line : Bytes) : Prop :=
  ∃ name value, line = name ++ 58 :: value ∧
    eqIgnoreAsciiCase name (ascii "content-length") = true ∧
    parseUnsigned u64Max (trim value) = some length

/-- A header line that announces a chunked body. -/
def ChunkedLine (line : Bytes) : Prop :=
  ∃ name value, line = name ++ 58 :: value ∧
    eqIgnoreAsciiCase name (ascii "transfer-encoding") = true ∧
    eqIgnoreAsciiCase (trim value) (ascii "chunked") = true

theorem ContentLengthLine.read {length : Nat} {line : Bytes} (h : ContentLengthLine length line)
    (r : Response) : readHeader (.unframed r) line = .ok ⟨r, some length, false⟩ := by
  obtain ⟨name, value, rfl, hname, hvalue⟩ := h
  have hsep := not_mem_of_eqIgnoreAsciiCase hname (by decide)
  simp [readHeader, splitOnce_eq value hsep, hname, hvalue, Headers.unframed]

theorem ChunkedLine.read {line : Bytes} (h : ChunkedLine line) (r : Response) :
    readHeader (.unframed r) line = .ok ⟨r, none, true⟩ := by
  obtain ⟨name, value, rfl, hname, hvalue⟩ := h
  have hsep := not_mem_of_eqIgnoreAsciiCase hname (by decide)
  have hother : eqIgnoreAsciiCase name (ascii "content-length") = false := by
    have heq : name.map toAsciiLowercase = (ascii "transfer-encoding").map toAsciiLowercase :=
      of_decide_eq_true hname
    rw [eqIgnoreAsciiCase, heq]
    decide
  simp [readHeader, splitOnce_eq value hsep, hname, hother, hvalue, Headers.unframed]

/-! ## §2 Head -/

/-- Lines that can stand in a head. -/
def PlainLine (line : Bytes) : Prop := NoCrlf line ∧ validUtf8 line = true

theorem plainLine_of_ascii {line : Bytes} (hline : NoCrlf line) (hascii : ∀ b ∈ line, b < 0x80) :
    PlainLine line :=
  ⟨hline, validUtf8_of_ascii hascii⟩

theorem validUtf8_joinCrlf : ∀ {lines : List Bytes}, (∀ line ∈ lines, validUtf8 line = true) →
    validUtf8 (joinCrlf lines) = true
  | [], _ => rfl
  | [line], h => h line (by simp)
  | line :: next :: rest, h => by
      have hrest : validUtf8 (joinCrlf (next :: rest)) = true :=
        validUtf8_joinCrlf fun l hl => h l (by simp [hl])
      exact validUtf8_append (validUtf8_append (h line (by simp)) (by decide)) hrest

/-- A response cut after `k` bytes: until the empty line after the head has
arrived there is nothing to read, and then the body is read from what is left. -/
theorem parseResponse_take {lines : List Bytes} {headers : Headers} (hne : lines ≠ [])
    (hplain : ∀ line ∈ lines, PlainLine line ∧ line ≠ [])
    (hread : readHead (joinCrlf lines) = .ok headers)
    (hfits : (joinCrlf lines).length ≤ maxHeaders) (rest : Bytes) (maxBody k : Nat) :
    parseResponse ((joinCrlf lines ++ blankLine ++ rest).take k) maxBody =
      if (joinCrlf lines).length + 4 ≤ k then
        readBody headers (rest.take (k - ((joinCrlf lines).length + 4))) maxBody
      else (.error .incompleteHeaders, []) := by
  have hfind := findPattern_blankLine_joinCrlf rest hne
    fun line hmem => ⟨(hplain line hmem).1.1, (hplain line hmem).2⟩
  have htake := findPattern_take blankLine_ne_nil k hfind
  have hutf8 := validUtf8_joinCrlf fun line hmem => (hplain line hmem).1.2
  rw [show blankLine.length = 4 from rfl] at htake
  unfold parseResponse
  rw [htake]
  by_cases hk : (joinCrlf lines).length + 4 ≤ k
  · have hhead : ((joinCrlf lines ++ blankLine ++ rest).take k).take (joinCrlf lines).length
        = joinCrlf lines := by
      rw [List.take_take, Nat.min_eq_left (by omega), List.append_assoc, List.take_left']
      rfl
    have hrest : ((joinCrlf lines ++ blankLine ++ rest).take k).drop ((joinCrlf lines).length + 4)
        = rest.take (k - ((joinCrlf lines).length + 4)) := by
      rw [List.drop_take, List.drop_left' (by simp [blankLine, crlf])]
    rw [if_pos hk, if_pos hk]
    simp only [hhead, hrest, hutf8, hread]
    rw [if_neg (by omega)]
    simp
  · rw [if_neg hk, if_neg hk]

/-! ## §3 Chunks -/

/-- A chunk as it is sent: a size in hexadecimal digits of either case, an
extension or none, and the data. -/
structure Chunk where
  size : Bytes
  ext : Bytes
  data : Bytes
  size_ne : size ≠ []
  size_hex : ∀ b ∈ size, (hexDigit b).isSome
  size_value : hexValue size = data.length
  ext_mark : ext = [] ∨ ∃ e, ext = 59 :: e
  ext_plain : ∀ b ∈ ext, b < 0x80 ∧ b ≠ 13 ∧ b ≠ 10

namespace Chunk

/-- The size line, without its line ending. -/
def line (c : Chunk) : Bytes := c.size ++ c.ext

/-- The bytes of a chunk. -/
def text (c : Chunk) : Bytes := c.line ++ crlf ++ (c.data ++ crlf)

end Chunk

/-- White space begins and ends with bytes that are not. -/
theorem whiteSpace_ends : ∀ space ∈ whiteSpace, space ≠ [] ∧
    (∀ b ∈ space.head?, b ≤ 32 ∨ 128 ≤ b) ∧ ∀ b ∈ space.getLast?, b ≤ 32 ∨ 128 ≤ b := by
  decide +kernel

/-- A byte of ASCII that shows. -/
def VisibleByte (b : UInt8) : Prop := 32 < b ∧ b < 128

theorem dropSpaces_of_none {spaces : List Bytes} {text : Bytes}
    (h : ∀ space ∈ spaces, ¬ space <+: text) (fuel : Nat) :
    dropSpaces spaces fuel text = text := by
  cases fuel with
  | zero => rfl
  | succ fuel =>
      have hnone : spaces.find? (fun space => space.isPrefixOf text) = none := by
        rw [List.find?_eq_none]
        intro space hmem
        simpa using h space hmem
      rw [dropSpaces, hnone]

/-- Text that shows keeps its ends. -/
theorem trim_of_visible {text : Bytes} (h : ∀ b ∈ text, VisibleByte b) : trim text = text := by
  have hoff : ∀ b ∈ text, ¬ (b ≤ 32 ∨ 128 ≤ b) := by
    intro b hb
    obtain ⟨hlow, hhigh⟩ := h b hb
    simp only [UInt8.lt_iff_toNat_lt, UInt8.le_iff_toNat_le] at hlow hhigh ⊢
    omega
  have hfront : ∀ space ∈ whiteSpace, ¬ space <+: text := by
    intro space hspace hp
    obtain ⟨hne, hhead, _⟩ := whiteSpace_ends space hspace
    obtain ⟨b, rest, rfl⟩ := List.exists_cons_of_ne_nil hne
    exact hoff b (hp.subset (List.mem_cons_self ..)) (hhead b rfl)
  have hback : ∀ space ∈ whiteSpace.map List.reverse, ¬ space <+: text.reverse := by
    intro space hspace hp
    obtain ⟨space, hmem, rfl⟩ := List.mem_map.mp hspace
    obtain ⟨hne, _, hlast⟩ := whiteSpace_ends space hmem
    have hsuffix : space <:+ text := List.reverse_prefix.mp hp
    exact hoff _ (hsuffix.subset (List.getLast_mem hne)) (hlast _ (List.getLast?_eq_some_getLast hne))
  simp only [trim, dropSpaces_of_none hfront, dropSpaces_of_none hback, List.reverse_reverse]

/-- A hexadecimal digit shows, and is no sign and no separator. -/
theorem hexDigit_visible {b : UInt8} (h : (hexDigit b).isSome) :
    VisibleByte b ∧ b ≠ 43 ∧ b ≠ 59 := by
  unfold hexDigit at h
  simp only [VisibleByte, UInt8.lt_iff_toNat_lt, UInt8.le_iff_toNat_le, ne_eq,
    UInt8.toNat_inj.symm] at h ⊢
  simp at h ⊢
  split at h
  · omega
  · split at h
    · omega
    · split at h
      · omega
      · simp at h

theorem parseHexUsize_eq {digits : Bytes} (hne : digits ≠ [])
    (hhex : ∀ b ∈ digits, (hexDigit b).isSome) (hfits : hexValue digits ≤ u64Max) :
    parseHexUsize digits = some (hexValue digits) := by
  obtain ⟨b, rest, rfl⟩ := List.exists_cons_of_ne_nil hne
  have hsign := (hexDigit_visible (hhex b (List.mem_cons_self ..))).2.1
  have hany : (b :: rest).any (fun b => (hexDigit b).isNone) = false := by
    rw [List.any_eq_false]
    intro c hc
    simp [Option.isSome_iff_ne_none.mp (hhex c hc)]
  unfold parseHexUsize
  split
  · rename_i heq
    cases heq
    exact absurd rfl hsign
  · simp [hany, hfits]

namespace Chunk

variable (c : Chunk)

/-- The size line as the reader takes it apart. -/
theorem line_size (h : c.data.length ≤ u64Max) :
    parseHexUsize (trim ((c.line.splitOn 59).headD [])) = some c.data.length := by
  have hsep : (59 : UInt8) ∉ c.size := by
    intro hmem
    exact (hexDigit_visible (c.size_hex 59 hmem)).2.2 rfl
  have hhead : (c.line.splitOn 59).headD [] = c.size := by
    unfold line
    rcases c.ext_mark with hnone | ⟨e, he⟩
    · rw [hnone, List.append_nil, List.splitOn_eq_singleton hsep]
      rfl
    · rw [he, List.splitOn_append_cons_self_of_not_mem hsep]
      rfl
  rw [hhead, trim_of_visible fun b hb => (hexDigit_visible (c.size_hex b hb)).1,
    parseHexUsize_eq c.size_ne c.size_hex (by rw [c.size_value]; exact h), c.size_value]

theorem line_plain : ∀ b ∈ c.line, b < 0x80 ∧ b ≠ 13 := by
  intro b hb
  rcases List.mem_append.mp hb with hsize | hext
  · obtain ⟨hprint, _⟩ := hexDigit_visible (c.size_hex b hsize)
    refine ⟨hprint.2, fun heq => ?_⟩
    rw [heq] at hprint
    exact absurd hprint.1 (by decide)
  · obtain ⟨hascii, hreturn, _⟩ := c.ext_plain b hext
    exact ⟨hascii, hreturn⟩

/-- The line ending of a size line, in a response cut after `k` bytes. -/
theorem findPattern_line (t : Bytes) (k : Nat) :
    findPattern crlf ((c.line ++ crlf ++ t).take k)
      = if c.line.length + 2 ≤ k then some c.line.length else none :=
  findPattern_take crlf_ne_nil k
    (findPattern_crlf_append t (noCrlf_of_no_return fun b hb => (c.line_plain b hb).2))

end Chunk

/-- The size line has not arrived whole. -/
theorem decodeChunked_line_cut (c : Chunk) (t body : Bytes) (maxBody : Nat) {k : Nat}
    (hk : k < c.line.length + 2) :
    decodeChunked ((c.line ++ crlf ++ t).take k) body maxBody = (.error .truncatedBody, body) := by
  rw [decodeChunked, c.findPattern_line, if_neg (by omega)]

/-- The size line has arrived. -/
theorem decodeChunked_line (c : Chunk) (t body : Bytes) {maxBody k : Nat}
    (hk : c.line.length + 2 ≤ k) (hfits : body.length + c.data.length ≤ maxBody)
    (hmax : maxBody ≤ u64Max) :
    decodeChunked ((c.line ++ crlf ++ t).take k) body maxBody =
      let data := t.take (k - (c.line.length + 2))
      if c.data.length = 0 then (.ok (), body)
      else if data.length < c.data.length then (.error .truncatedBody, body)
      else if crlf <+: data.drop c.data.length then
        decodeChunked (data.drop (c.data.length + 2)) (body ++ data.take c.data.length) maxBody
      else (.error (.malformed "chunk terminator"), body ++ data.take c.data.length) := by
  have hline : ((c.line ++ crlf ++ t).take k).take c.line.length = c.line := by
    rw [List.take_take, Nat.min_eq_left (by omega), List.append_assoc, List.take_left']
    rfl
  have hdata : ((c.line ++ crlf ++ t).take k).drop (c.line.length + 2)
      = t.take (k - (c.line.length + 2)) := by
    rw [List.drop_take, List.drop_left' (by simp)]
  have hutf8 : validUtf8 c.line = true :=
    validUtf8_of_ascii fun b hb => (c.line_plain b hb).1
  have hlimit : ¬ saturatingAdd body.length c.data.length > maxBody := by
    rw [saturatingAdd_of_le (by omega)]
    omega
  rw [decodeChunked, c.findPattern_line, if_pos hk]
  simp only [hline, hdata, hutf8, c.line_size (by omega), if_neg hlimit, Bool.true_eq_false,
    if_false, List.drop_drop]

/-- A chunk among the bytes that follow it, cut after `k` bytes: it is taken when
it has arrived whole, and is an error when not. -/
theorem decodeChunked_text (c : Chunk) (hne : c.data ≠ []) (t body : Bytes) {maxBody : Nat}
    (hfits : body.length + c.data.length ≤ maxBody) (hmax : maxBody ≤ u64Max) (k : Nat) :
    (c.text.length ≤ k → decodeChunked ((c.text ++ t).take k) body maxBody
      = decodeChunked (t.take (k - c.text.length)) (body ++ c.data) maxBody) ∧
    (k < c.text.length → ∃ err body',
      decodeChunked ((c.text ++ t).take k) body maxBody = (.error err, body')) := by
  have hpos : c.data.length ≠ 0 := fun h => hne (List.length_eq_zero_iff.mp h)
  have htext : c.text ++ t = c.line ++ crlf ++ (c.data ++ (crlf ++ t)) := by
    simp [Chunk.text]
  have hlen : c.text.length = c.line.length + 2 + (c.data.length + 2) := by
    simp [Chunk.text]
    omega
  have hdata : ∀ j, c.data.length ≤ j →
      ¬ ((c.data ++ (crlf ++ t)).take j).length < c.data.length ∧
      ((c.data ++ (crlf ++ t)).take j).take c.data.length = c.data ∧
      ((c.data ++ (crlf ++ t)).take j).drop c.data.length = (crlf ++ t).take (j - c.data.length) := by
    intro j hj
    refine ⟨?_, ?_, ?_⟩
    · simp
      omega
    · rw [List.take_take, Nat.min_eq_left hj, List.take_left']
      rfl
    · rw [List.drop_take, List.drop_left']
      rfl
  rw [htext]
  constructor
  · intro hk
    obtain ⟨hlong, htake, hdrop⟩ := hdata (k - (c.line.length + 2)) (by omega)
    have hend : crlf <+: (crlf ++ t).take (k - (c.line.length + 2) - c.data.length) :=
      List.prefix_take_iff.mpr ⟨List.prefix_append .., by rw [length_crlf]; omega⟩
    have hrest : ((crlf ++ t).take (k - (c.line.length + 2) - c.data.length)).drop 2
        = t.take (k - c.text.length) := by
      rw [List.drop_take, hlen]
      show t.take _ = t.take _
      congr 1
      omega
    rw [decodeChunked_line c _ body (by omega) hfits hmax]
    simp only [if_neg hpos, if_neg hlong, htake, ← List.drop_drop, hdrop, if_pos hend, hrest]
  · intro hk
    by_cases hline : k < c.line.length + 2
    · exact ⟨_, _, decodeChunked_line_cut c _ body maxBody hline⟩
    · rw [decodeChunked_line c _ body (by omega) hfits hmax]
      simp only [if_neg hpos]
      by_cases hshort : k - (c.line.length + 2) < c.data.length
      · exact ⟨_, _, if_pos (by simp; omega)⟩
      · -- The data is there but its line ending is not.
        obtain ⟨hlong, htake, hdrop⟩ := hdata (k - (c.line.length + 2)) (by omega)
        have hend : ¬ crlf <+: (crlf ++ t).take (k - (c.line.length + 2) - c.data.length) := by
          intro hp
          have hle := (List.prefix_take_iff.mp hp).2
          rw [length_crlf] at hle
          omega
        rw [if_neg hlong, hdrop, if_neg hend]
        exact ⟨_, _, rfl⟩

/-- The bytes of a chunked body: the chunks, the size line of the last, and what
the trailer is, with the empty line that ends it. -/
def chunkedText (chunks : List Chunk) (last : Chunk) (trailer : Bytes) : Bytes :=
  chunks.flatMap Chunk.text ++ (last.line ++ crlf ++ trailer)

/-- What is said of a decoded response that was cut short. -/
def SafeCut {α : Type} (result : Except HttpError α × Bytes) (value : α) (body : Bytes) : Prop :=
  (∃ err body', result = (.error err, body')) ∨ result = (.ok value, body)

/-- All chunks, cut after `k` bytes: the whole body or an error. -/
theorem decodeChunked_chunks {last : Chunk} (hlast : last.data = []) (trailer : Bytes)
    {maxBody : Nat} (hmax : maxBody ≤ u64Max) : ∀ (chunks : List Chunk) (body : Bytes) (k : Nat),
    (∀ c ∈ chunks, c.data ≠ []) →
    body.length + (chunks.flatMap Chunk.data).length ≤ maxBody →
    SafeCut (decodeChunked ((chunkedText chunks last trailer).take k) body maxBody) ()
        (body ++ chunks.flatMap Chunk.data) ∧
      ((chunkedText chunks last trailer).length ≤ k →
        decodeChunked ((chunkedText chunks last trailer).take k) body maxBody
          = (.ok (), body ++ chunks.flatMap Chunk.data)) := by
  intro chunks
  induction chunks with
  | nil =>
      intro body k _ hfits
      have hzero : last.data.length = 0 := by rw [hlast]; rfl
      simp only [chunkedText, List.flatMap_nil, List.nil_append, List.append_nil,
        List.length_nil, Nat.add_zero] at hfits ⊢
      by_cases hk : last.line.length + 2 ≤ k
      · have hread := decodeChunked_line last trailer body hk (by omega) hmax
        simp only [hzero, if_true] at hread
        exact ⟨Or.inr hread, fun _ => hread⟩
      · refine ⟨Or.inl ⟨_, _, decodeChunked_line_cut last trailer body maxBody (by omega)⟩, ?_⟩
        intro hlen
        simp at hlen
        omega
  | cons c chunks ih =>
      intro body k hne hfits
      have htext : chunkedText (c :: chunks) last trailer
          = c.text ++ chunkedText chunks last trailer := by
        simp [chunkedText]
      simp only [List.flatMap_cons, List.length_append] at hfits
      obtain ⟨hwhole, hcut⟩ := decodeChunked_text c (hne c (List.mem_cons_self ..))
        (chunkedText chunks last trailer) body (by omega) hmax k
      rw [htext]
      by_cases hk : c.text.length ≤ k
      · obtain ⟨hsafe, hall⟩ := ih (body ++ c.data) (k - c.text.length)
          (fun d hd => hne d (List.mem_cons_of_mem _ hd))
          (by rw [List.length_append]; omega)
        rw [hwhole hk]
        rw [List.append_assoc] at hsafe hall
        refine ⟨hsafe, fun hlen => hall ?_⟩
        rw [List.length_append] at hlen
        omega
      · refine ⟨Or.inl (hcut (by omega)), ?_⟩
        intro hlen
        rw [List.length_append] at hlen
        omega

/-! ## §4 Framing -/

/-- A status line and header lines the client accepts, none of which says how the
body is framed, with a place in the middle for the line that does. -/
structure AcceptedHead (status : Bytes) (before after : List Bytes) (response : Response) :
    Prop where
  plain : ∀ line ∈ status :: (before ++ after), PlainLine line
  accepted : readHead (joinCrlf (status :: (before ++ after))) = .ok (.unframed response)

/-- The head with its framing line, up to the empty line. -/
def framedHead (status : Bytes) (before : List Bytes) (framing : Bytes) (after : List Bytes) :
    Bytes :=
  joinCrlf (status :: (before ++ framing :: after))

/-- What a response parses to, whole and cut anywhere. -/
structure FramesExactly (raw : Bytes) (maxBody : Nat) (response : Response) (body : Bytes) :
    Prop where
  whole : parseResponse raw maxBody = (.ok response, body)
  cut : ∀ k, k < raw.length → SafeCut (parseResponse (raw.take k) maxBody) response body

theorem readHead_joinCrlf {status : Bytes} {lines : List Bytes}
    (h : ∀ line ∈ status :: lines, NoCrlf line) :
    readHead (joinCrlf (status :: lines)) =
      match readStatus status with
      | .error err => .error err
      | .ok code => readHeaders (.unframed ⟨code, none, none⟩) lines := by
  rw [readHead, splitCrlf_joinCrlf (by simp) h]
  rfl

/-- A line that is read is not empty. -/
theorem ne_nil_of_readHeaders : ∀ {lines : List Bytes} {headers headers' : Headers},
    readHeaders headers lines = .ok headers' → ∀ line ∈ lines, line ≠ [] := by
  intro lines
  induction lines with
  | nil => intro _ _ _ line hmem; cases hmem
  | cons line lines ih =>
      intro headers headers' h l hmem
      rw [readHeaders] at h
      cases hline : readHeader headers line with
      | error err => simp [hline] at h
      | ok next =>
          simp only [hline] at h
          rcases List.mem_cons.mp hmem with rfl | hrest
          · intro hnil
            subst hnil
            simp [readHeader, splitOnce] at hline
          · exact ih h l hrest

/-- The head of a framed response. -/
theorem AcceptedHead.read_framed {status framing : Bytes} {before after : List Bytes}
    {response : Response} (h : AcceptedHead status before after response)
    (hplain : PlainLine framing) {length : Option Nat} {chunked : Bool}
    (hframing : ∀ r, readHeader (.unframed r) framing = .ok ⟨r, length, chunked⟩) :
    readHead (framedHead status before framing after) = .ok ⟨response, length, chunked⟩ ∧
      ∀ line ∈ status :: (before ++ framing :: after), PlainLine line ∧ line ≠ [] := by
  have hall : ∀ line ∈ status :: (before ++ framing :: after), PlainLine line := by
    intro line hmem
    by_cases heq : line = framing
    · rw [heq]
      exact hplain
    · exact h.plain line (by simp at hmem ⊢; tauto)
  have haccepted := h.accepted
  rw [readHead_joinCrlf fun line hmem => (h.plain line hmem).1] at haccepted
  rw [framedHead, readHead_joinCrlf fun line hmem => (hall line hmem).1]
  cases hstatus : readStatus status with
  | error err => simp [hstatus] at haccepted
  | ok code =>
      simp only [hstatus] at haccepted ⊢
      have hread := readHeaders_insert hframing after haccepted
      refine ⟨hread, fun line hmem => ⟨hall line hmem, ?_⟩⟩
      rcases List.mem_cons.mp hmem with rfl | hheader
      · intro hnil
        subst hnil
        have hempty : readStatus [] = .error (.malformed "status line") := by decide
        rw [hempty] at hstatus
        cases hstatus
      · exact ne_nil_of_readHeaders hread line hheader

/-- Framing a response exactly is reading its body exactly, whole and cut. -/
theorem framesExactly_of_readBody {lines : List Bytes} {headers : Headers} {rest body : Bytes}
    {maxBody : Nat} {response : Response} (hne : lines ≠ [])
    (hplain : ∀ line ∈ lines, PlainLine line ∧ line ≠ [])
    (hread : readHead (joinCrlf lines) = .ok headers)
    (hfits : (joinCrlf lines).length ≤ maxHeaders)
    (hwhole : readBody headers rest maxBody = (.ok response, body))
    (hcut : ∀ k, SafeCut (readBody headers (rest.take k) maxBody) response body) :
    FramesExactly (joinCrlf lines ++ blankLine ++ rest) maxBody response body where
  whole := by
    have htake := parseResponse_take hne hplain hread hfits rest maxBody
      (joinCrlf lines ++ blankLine ++ rest).length
    rw [List.take_length, if_pos (by simp [blankLine]; omega)] at htake
    rw [htake, List.take_of_length_le (by simp [blankLine]; omega), hwhole]
  cut := by
    intro k _
    rw [parseResponse_take hne hplain hread hfits rest maxBody k]
    split
    · exact hcut _
    · exact Or.inl ⟨_, _, rfl⟩

/-- **Body framing is exact and truncation is always caught.** A head the client
accepts, with one framing line anywhere among its header lines, and a body of at
most `maxBody` bytes: announced by its length, or cut into any non-empty chunks,
the response parses to exactly that body, and cut short anywhere it parses to an
error or to the complete body. -/
theorem http_framing_is_exact (status framing : Bytes) (before after : List Bytes)
    (response : Response) (maxBody : Nat) (body : Bytes) (hmax : maxBody ≤ u64Max)
    (hbody : body.length ≤ maxBody) (hhead : AcceptedHead status before after response)
    (hframing : PlainLine framing)
    (hfits : (framedHead status before framing after).length ≤ maxHeaders) :
    (ContentLengthLine body.length framing →
      FramesExactly (framedHead status before framing after ++ blankLine ++ body)
        maxBody response body) ∧
    (ChunkedLine framing → ∀ (chunks : List Chunk) (last : Chunk) (trailer : Bytes),
      (∀ c ∈ chunks, c.data ≠ []) → last.data = [] → chunks.flatMap Chunk.data = body →
      FramesExactly
        (framedHead status before framing after ++ blankLine ++ chunkedText chunks last trailer)
        maxBody response body) := by
  constructor
  · intro hlength
    obtain ⟨hread, hplain⟩ := hhead.read_framed hframing hlength.read
    refine framesExactly_of_readBody (by simp) hplain hread hfits ?_ ?_
    · simp only [readBody, Bool.false_eq_true, if_false]
      rw [if_neg (by omega), if_neg (by omega), List.take_length]
    · intro k
      simp only [readBody, Bool.false_eq_true, if_false]
      rw [if_neg (by omega)]
      by_cases hk : body.length ≤ k
      · rw [List.take_of_length_le hk, if_neg (by omega), List.take_length]
        exact Or.inr rfl
      · rw [if_pos (by simp; omega)]
        exact Or.inl ⟨_, _, rfl⟩
  · intro hchunked chunks last trailer hne hlast hdata
    obtain ⟨hread, hplain⟩ := hhead.read_framed hframing hchunked.read
    have hdecode := fun k => decodeChunked_chunks hlast trailer hmax chunks [] k hne
      (by simp [hdata]; exact hbody)
    simp only [hdata, List.nil_append] at hdecode
    refine framesExactly_of_readBody (by simp) hplain hread hfits ?_ ?_
    · have hwhole := (hdecode (chunkedText chunks last trailer).length).2 (le_refl _)
      rw [List.take_length] at hwhole
      simp [readBody, hwhole]
    · intro k
      rcases (hdecode k).1 with ⟨err, body', herr⟩ | hok
      · left
        exact ⟨err, body', by simp [readBody, herr]⟩
      · right
        simp [readBody, hok]

/-- The chunked response of the source's unit test, sent with a server header. -/
theorem http_framing_is_exact_wikipedia :
    FramesExactly
      (framedHead (ascii "HTTP/1.1 200 OK") [] (ascii "Transfer-Encoding: chunked")
          [ascii "Server: x"] ++ blankLine ++
        chunkedText
          [⟨ascii "4", ascii ";ext=1", ascii "Wiki", by decide +kernel, by decide +kernel, by decide +kernel,
              Or.inr ⟨ascii "ext=1", by decide +kernel⟩, by decide +kernel⟩,
            ⟨ascii "5", [], ascii "pedia", by decide +kernel, by decide +kernel, by decide +kernel, Or.inl rfl, by decide +kernel⟩]
          ⟨ascii "0", [], [], by decide +kernel, by decide +kernel, by decide +kernel, Or.inl rfl, by decide +kernel⟩
          (ascii "X-Trailer: 1" ++ blankLine))
      64 ⟨200, none, none⟩ (ascii "Wikipedia") :=
  (http_framing_is_exact (ascii "HTTP/1.1 200 OK") (ascii "Transfer-Encoding: chunked") []
    [ascii "Server: x"] ⟨200, none, none⟩ 64 (ascii "Wikipedia") (by decide +kernel) (by decide +kernel)
    ⟨fun line hmem => plainLine_of_ascii (by revert line; decide +kernel) (by revert line; decide +kernel), rfl⟩
    (plainLine_of_ascii (by decide +kernel) (by decide +kernel)) (by decide +kernel)).2
    ⟨ascii "Transfer-Encoding", ascii " chunked", by decide +kernel, by decide +kernel, by decide +kernel⟩
    _ _ _ (by decide +kernel) rfl (by decide +kernel)

/-! ## §5 Get -/

/-- Everything a connection delivers. -/
def delivered (reads : List ReadResult) : Bytes :=
  reads.flatMap fun
    | .bytes chunk => chunk
    | _ => []

/-- The loop reads from the front of what is delivered, however it is cut up. -/
theorem readRaw_prefix {limit maxBody : Nat} : ∀ {reads : List ReadResult} {raw raw' : Bytes},
    readRaw limit maxBody raw reads = .ok raw' → raw' <+: raw ++ delivered reads := by
  intro reads
  induction reads with
  | nil =>
      intro raw raw' h
      simp only [readRaw, Except.ok.injEq] at h
      simp [h, delivered]
  | cons read reads ih =>
      intro raw raw' h
      cases read with
      | bytes chunk =>
          rw [readRaw] at h
          split at h
          · cases h
            exact List.prefix_append ..
          · split at h
            · cases h
            · simpa [delivered] using ih h
      | interrupted => simpa [delivered] using ih h
      | closed =>
          cases h
          exact List.prefix_append ..
      | unexpectedEof =>
          cases h
          exact List.prefix_append ..
      | timedOut => cases h
      | failed => cases h

/-- A connection that delivers no more than the response, and may end at any
byte of it in any way, gives the complete body or an error. -/
theorem get_never_truncates {sent : Bytes} {maxBody : Nat} {response : Response} {body : Bytes}
    (h : FramesExactly sent maxBody response body) {reads : List ReadResult}
    (hsent : delivered reads <+: sent) {result : Response × Bytes}
    (hget : get reads maxBody = .ok result) : result = (response, body) := by
  unfold get at hget
  cases hraw : readRaw (saturatingAdd maxBody maxHeaders) maxBody [] reads with
  | error err => simp [hraw] at hget
  | ok raw =>
      simp only [hraw] at hget
      have hreceived : raw <+: sent := by
        have hread := readRaw_prefix hraw
        rw [List.nil_append] at hread
        exact hread.trans hsent
      have hsafe : SafeCut (parseResponse raw maxBody) response body := by
        rw [List.prefix_iff_eq_take] at hreceived
        by_cases hlen : raw.length < sent.length
        · rw [hreceived]
          exact h.cut raw.length hlen
        · rw [hreceived, List.take_of_length_le (by omega)]
          exact Or.inr h.whole
      rcases hsafe with ⟨err, body', herr⟩ | hok
      · simp [herr] at hget
      · simp only [hok, Except.ok.injEq] at hget
        exact hget.symm

end Bowst.Venue
