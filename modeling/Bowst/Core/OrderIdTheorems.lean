/-
Bowst.Core.OrderIdTheorems — client order IDs and their texts.

  §1 Digits    — hex digits as numerals in base 16.
  §2 Texts     — a text decodes exactly if it is the text of an ID.
  §3 Generator — a session's IDs, in their order.
-/
import Bowst.Core.OrderId
import Bowst.Lib.Radix

namespace Bowst.Core

open Bowst.Lib

/-! ## §1 Digits -/

/-- The byte of a digit. -/
def hexByte (d : Nat) : UInt8 := (hexAlphabet[d]?).getD 48

theorem hexByte_spec : ∀ d < 16,
    hexValue (hexByte d) = some d ∧ hexByte d < 0x80 ∧ hexByte d ≠ 43 ∧
      hexAlphabet.contains (hexByte d) = true := by
  decide

/-- The bytes of the alphabet are the bytes of digits. -/
theorem exists_digit : ∀ byte ∈ hexAlphabet, ∃ d < 16, hexByte d = byte := by
  have hall : hexAlphabet.all (fun byte => (List.range 16).any (fun d => hexByte d == byte)) =
      true := by decide
  intro byte hmem
  obtain ⟨d, hd, heq⟩ := List.any_eq_true.mp (List.all_eq_true.mp hall byte hmem)
  exact ⟨d, List.mem_range.mp hd, eq_of_beq heq⟩

theorem exists_digits : ∀ {bytes : Bytes}, bytes.all hexAlphabet.contains = true →
    ∃ ds : List Nat, (∀ d ∈ ds, d < 16) ∧ ds.map hexByte = bytes := by
  intro bytes
  induction bytes with
  | nil => intro _; exact ⟨[], by simp, rfl⟩
  | cons byte rest ih =>
      intro h
      rw [List.all_cons, Bool.and_eq_true, List.contains_iff_mem] at h
      obtain ⟨d, hd, rfl⟩ := exists_digit byte h.1
      obtain ⟨ds, hds, rfl⟩ := ih h.2
      refine ⟨d :: ds, ?_, rfl⟩
      intro d' hd'
      rcases List.mem_cons.mp hd' with rfl | hd'
      · exact hd
      · exact hds d' hd'

theorem hexSlots_eq : ∀ (slots : Nat) (rest : UInt32),
    (hexSlots slots rest).reverse = (digitsOf 16 slots rest.toNat).map hexByte := by
  intro slots
  induction slots with
  | zero => intro rest; rfl
  | succ slots ih =>
      intro rest
      have hnibble : (rest.toUInt8 &&& 0xf).toNat = rest.toNat % 16 := by
        have hand : (rest.toUInt8 &&& 0xf).toNat = rest.toNat % 2 ^ 8 % 2 ^ 4 := by
          rw [UInt8.toNat_and, UInt32.toNat_toUInt8, ← Nat.and_two_pow_sub_one_eq_mod _ 4]
          rfl
        rw [hand]
        omega
      have hshift : (rest >>> 4).toNat = rest.toNat / 16 := by
        rw [UInt32.toNat_shiftRight]
        exact Nat.shiftRight_eq_div_pow _ 4
      rw [hexSlots, List.reverse_cons, ih, hnibble, hshift, digitsOf, List.map_append]
      rfl

/-- A number is written as its digits. -/
theorem writeHex_eq (slots : Nat) (value : UInt32) :
    writeHex slots value = (digitsOf 16 slots value.toNat).map hexByte :=
  hexSlots_eq slots value

theorem le_numberFrom (ds : List Nat) : ∀ v : Nat, v ≤ numberFrom 16 v ds := by
  induction ds with
  | nil => intro v; exact le_rfl
  | cons d ds ih =>
      intro v
      have hrest := ih (v * 16 + d)
      have hstep : numberFrom 16 v (d :: ds) = numberFrom 16 (v * 16 + d) ds := rfl
      rw [hstep]
      omega

/-- Digits are read without overflow as long as the number fits. -/
theorem radixDigits_hex : ∀ (ds : List Nat) (v : Nat), (∀ d ∈ ds, d < 16) →
    numberFrom 16 v ds < 2 ^ 32 → radixDigits v (ds.map hexByte) = some (numberFrom 16 v ds) := by
  intro ds
  induction ds with
  | nil => intro v _ _; rfl
  | cons d ds ih =>
      intro v h hfits
      have hdigit := (hexByte_spec d (h d (by simp))).1
      have hle : v * 16 + d ≤ numberFrom 16 (v * 16 + d) ds := le_numberFrom ds _
      have hstep : numberFrom 16 v (d :: ds) = numberFrom 16 (v * 16 + d) ds := rfl
      rw [hstep] at hfits ⊢
      rw [List.map_cons, radixDigits, hdigit, Option.bind_some, if_pos (lt_of_le_of_lt hle hfits)]
      exact ih _ (fun d' hd' => h d' (by simp [hd'])) hfits

theorem fromStrRadix_hex {ds : List Nat} (hlen : ds.length = 8) (h : ∀ d ∈ ds, d < 16) :
    fromStrRadix (ds.map hexByte) = some (UInt32.ofNat (numberOf 16 ds)) := by
  have hfits : numberOf 16 ds < 2 ^ 32 := by
    have hlt := numberOf_lt ds h
    rwa [hlen] at hlt
  obtain ⟨d, rest, rfl⟩ := List.exists_cons_of_length_eq_add_one hlen
  have hplus : hexByte d ≠ 43 := (hexByte_spec d (h d (by simp))).2.2.1
  have hread := radixDigits_hex (d :: rest) 0 h hfits
  have hstrip : stripPlus ((d :: rest).map hexByte) = (d :: rest).map hexByte := by
    rw [List.map_cons]
    unfold stripPlus
    split
    · rename_i digits heq
      exact absurd (List.cons.inj heq).1 hplus
    · rfl
  rw [fromStrRadix, hstrip, if_neg (by simp), hread]
  rfl

/-! ## §2 Texts -/

namespace ClientOrderId

/-- The digits of an ID. -/
def digits (id : ClientOrderId) : List Nat :=
  digitsOf 16 8 id.session.toNat ++ digitsOf 16 8 id.sequence.toNat

theorem encode_bytes (id : ClientOrderId) :
    id.encode.bytes = idPrefix ++ id.digits.map hexByte := by
  simp only [encode, digits, writeHex_eq, List.map_append]
  rfl

/-- Only ASCII is written. -/
theorem encode_asStr (id : ClientOrderId) : id.encode.asStr = idPrefix ++ id.digits.map hexByte := by
  have hascii : ∀ byte ∈ id.encode.bytes, byte < 0x80 := by
    intro byte hmem
    rw [encode_bytes] at hmem
    rcases List.mem_append.mp hmem with hmem | hmem
    · have hall : idPrefix.all (fun byte => decide (byte < 0x80)) = true := by decide
      exact of_decide_eq_true (List.all_eq_true.mp hall byte hmem)
    · obtain ⟨d, hd, rfl⟩ := List.mem_map.mp hmem
      have hlt : d < 16 := by
        rcases List.mem_append.mp hd with hd | hd
        · exact digit_lt (by decide) _ _ d hd
        · exact digit_lt (by decide) _ _ d hd
      exact (hexByte_spec d hlt).2.1
  rw [ClientOrderIdText.asStr, if_pos (validUtf8_of_ascii hascii), encode_bytes]

/-- What two groups of eight digits decode as. -/
theorem decode_hex {front back : List Nat} (hfront : front.length = 8) (hback : back.length = 8)
    (hf : ∀ d ∈ front, d < 16) (hb : ∀ d ∈ back, d < 16) :
    decode (idPrefix ++ (front ++ back).map hexByte) =
      some ⟨UInt32.ofNat (numberOf 16 front), UInt32.ofNat (numberOf 16 back)⟩ := by
  have hall : ((front ++ back).map hexByte).all hexAlphabet.contains = true := by
    rw [List.all_eq_true]
    intro byte hmem
    obtain ⟨d, hd, rfl⟩ := List.mem_map.mp hmem
    rcases List.mem_append.mp hd with hd | hd
    · exact (hexByte_spec d (hf d hd)).2.2.2
    · exact (hexByte_spec d (hb d hd)).2.2.2
  have hlen : ((front ++ back).map hexByte).length = hexDigits := by
    simp [hfront, hback, hexDigits]
  have htake : ((front ++ back).map hexByte).take (hexDigits / 2) = front.map hexByte := by
    rw [List.map_append]
    exact List.take_left' (by simp [hfront, hexDigits])
  have hdrop : ((front ++ back).map hexByte).drop (hexDigits / 2) = back.map hexByte := by
    rw [List.map_append]
    exact List.drop_left' (by simp [hfront, hexDigits])
  rw [decode, if_pos (List.prefix_append ..), List.drop_left]
  simp only [hlen, hall, htake, hdrop, fromStrRadix_hex hfront hf, fromStrRadix_hex hback hb]
  rfl

/-- A text is decoded only if it is the text of the ID it is decoded as. -/
theorem encode_of_decode {text : Bytes} {id : ClientOrderId} (h : decode text = some id) :
    text = id.encode.asStr := by
  dsimp only [decode] at h
  split_ifs at h with hstart hform
  obtain ⟨rest, rfl⟩ := hstart
  rw [List.drop_left] at h hform
  simp only [not_or, not_not, Bool.not_eq_true', Bool.not_eq_false] at hform
  obtain ⟨hlen, hall⟩ := hform
  obtain ⟨ds, hds, rfl⟩ := exists_digits hall
  rw [List.length_map, hexDigits] at hlen
  -- The digits are two groups of eight, so both numbers fit and are written back as they are.
  have hf : ∀ d ∈ ds.take 8, d < 16 := fun d hd => hds d (List.mem_of_mem_take hd)
  have hb : ∀ d ∈ ds.drop 8, d < 16 := fun d hd => hds d (List.mem_of_mem_drop hd)
  have hflen : (ds.take 8).length = 8 := by simp [hlen]
  have hblen : (ds.drop 8).length = 8 := by simp [hlen]
  have hwritten : ∀ group : List Nat, group.length = 8 → (∀ d ∈ group, d < 16) →
      digitsOf 16 8 (UInt32.ofNat (numberOf 16 group)).toNat = group := by
    intro group hgroup hlt
    have hfits := numberOf_lt group hlt
    rw [hgroup] at hfits
    rw [UInt32.toNat_ofNat_of_lt' hfits, ← hgroup]
    exact digitsOf_numberOf group hlt
  have htake : (ds.map hexByte).take (hexDigits / 2) = (ds.take 8).map hexByte := List.map_take.symm
  have hdrop : (ds.map hexByte).drop (hexDigits / 2) = (ds.drop 8).map hexByte := List.map_drop.symm
  rw [htake, hdrop, fromStrRadix_hex hflen hf, fromStrRadix_hex hblen hb] at h
  cases h
  rw [encode_asStr, digits, hwritten _ hflen hf, hwritten _ hblen hb, List.take_append_drop]

/-- An ID's text decodes as the ID. -/
theorem decode_encode (id : ClientOrderId) : decode id.encode.asStr = some id := by
  have hdigits : ∀ n : Nat, ∀ d ∈ digitsOf 16 8 n, d < 16 := digit_lt (by decide) 8
  have hback : ∀ part : UInt32, UInt32.ofNat (numberOf 16 (digitsOf 16 8 part.toNat)) = part := by
    intro part
    rw [numberOf_digitsOf, Nat.mod_eq_of_lt (show part.toNat < 16 ^ 8 from part.toNat_lt),
      UInt32.ofNat_toNat]
  rw [encode_asStr, digits, decode_hex (by simp) (by simp) (hdigits _) (hdigits _), hback, hback]

/-- Different IDs have different texts. -/
theorem encode_injective {a b : ClientOrderId} (h : a.encode.asStr = b.encode.asStr) : a = b := by
  have ha := decode_encode a
  rw [h, decode_encode b] at ha
  exact (Option.some.inj ha).symm

end ClientOrderId

/-! ## §3 Generator -/

namespace ClientOrderIdGen

/-- What the call after `calls` others returns. -/
def nth (gen : ClientOrderIdGen) (calls : Nat) : Option ClientOrderId :=
  gen.upcoming.bind fun sequence =>
    if sequence.toNat + calls < 2 ^ 32 then
      some ⟨gen.session, UInt32.ofNat (sequence.toNat + calls)⟩
    else none

theorem nth_zero (gen : ClientOrderIdGen) : gen.nth 0 = gen.next.1 := by
  unfold nth next
  cases gen.upcoming with
  | none => rfl
  | some sequence =>
      have hlt := sequence.toNat_lt
      simp [show sequence.toNat < 4294967296 from hlt]

theorem nth_succ (gen : ClientOrderIdGen) (calls : Nat) :
    gen.nth (calls + 1) = gen.next.2.nth calls := by
  obtain ⟨session, upcoming⟩ := gen
  unfold nth next
  cases upcoming with
  | none => rfl
  | some sequence =>
      simp only [Option.bind_some, checkedSucc]
      by_cases hroom : sequence.toNat + 1 < 2 ^ 32
      · have hsucc : (sequence + 1).toNat = sequence.toNat + 1 := by
          rw [UInt32.toNat_add]
          exact Nat.mod_eq_of_lt hroom
        rw [if_pos hroom, Option.bind_some, hsucc, Nat.add_assoc, Nat.add_comm 1 calls]
      · rw [if_neg hroom, Option.bind_none, if_neg (by omega)]

theorem issue_eq (calls : Nat) : ∀ gen : ClientOrderIdGen,
    issue calls gen = (List.range calls).map gen.nth := by
  induction calls with
  | zero => intro gen; rfl
  | succ calls ih =>
      intro gen
      rw [issue, ih, List.range_succ_eq_map, List.map_cons, List.map_map, nth_zero]
      congr 1
      refine List.map_congr_left fun k _ => ?_
      exact (nth_succ gen k).symm

theorem nth_none {gen : ClientOrderIdGen} {i j : Nat} (hle : i ≤ j) (h : gen.nth i = none) :
    gen.nth j = none := by
  unfold nth at h ⊢
  cases hnext : gen.upcoming with
  | none => rfl
  | some sequence =>
      rw [hnext, Option.bind_some] at h
      rw [Option.bind_some, if_neg]
      split_ifs at h
      omega

theorem nth_ne {gen : ClientOrderIdGen} {i j : Nat} (hlt : i < j) {a b : ClientOrderId}
    (ha : gen.nth i = some a) (hb : gen.nth j = some b) : a ≠ b := by
  unfold nth at ha hb
  obtain ⟨sequence, hnext, ha⟩ := Option.bind_eq_some_iff.mp ha
  rw [hnext, Option.bind_some] at hb
  split_ifs at ha hb with hi hj
  cases ha
  cases hb
  intro heq
  have hsequence := congrArg (fun id => id.sequence.toNat) heq
  simp only [UInt32.toNat_ofNat_of_lt' hi, UInt32.toNat_ofNat_of_lt' hj] at hsequence
  omega

end ClientOrderIdGen

/-- **Order IDs decode exactly their own texts.** A text decodes as an ID if and only if
it is the ID's text; and whatever the number of calls, a session's generator returns no
two IDs of one text, and nothing but `none` once it returned it. -/
theorem order_ids_decode_own_texts :
    (∀ (text : Bytes) (id : ClientOrderId),
      ClientOrderId.decode text = some id ↔ text = id.encode.asStr) ∧
    ∀ (session : UInt32) (calls : Nat),
      ((ClientOrderIdGen.new session).issue calls).Pairwise fun earlier later =>
        (∀ a b, earlier = some a → later = some b → a.encode.asStr ≠ b.encode.asStr) ∧
          (earlier = none → later = none) := by
  constructor
  · intro text id
    constructor
    · exact ClientOrderId.encode_of_decode
    · rintro rfl
      exact ClientOrderId.decode_encode id
  · intro session calls
    rw [ClientOrderIdGen.issue_eq, List.pairwise_map]
    refine List.pairwise_lt_range.imp ?_
    intro i j hlt
    refine ⟨?_, ClientOrderIdGen.nth_none hlt.le⟩
    intro a b ha hb heq
    exact ClientOrderIdGen.nth_ne hlt ha hb (ClientOrderId.encode_injective heq)

/-- The IDs of the source's tests. -/
example : ClientOrderId.decode (ascii "bw65f1a2c000000001") = some ⟨0x65f1a2c0, 1⟩ ∧
    ClientOrderId.decode (ascii "bw65F1A2C000000001") = none := by decide

end Bowst.Core
