/-
Bowst.Lib.Base64 — standard base64 with padding.

`encode` writes three bytes as four symbols and pads what is left; `decode` takes
exactly that back, and refuses padding bits that are not zero. Each undoes the
other (`decode_encode`, `encode_decode`), so an encoding is right when it decodes.
-/
import Bowst.Lib.Bytes

namespace Bowst.Lib.Base64

/-! ## Symbols -/

/-- The symbols, by their value. -/
def alphabet : List UInt8 :=
  ascii "ABCDEFGHIJKLMNOPQRSTUVWXYZabcdefghijklmnopqrstuvwxyz0123456789+/"

/-- Padding. -/
def pad : UInt8 := 61

def symbol (n : Nat) : UInt8 := alphabet.getD n pad

theorem alphabet_eq : alphabet =
    [65, 66, 67, 68, 69, 70, 71, 72, 73, 74, 75, 76, 77, 78, 79, 80, 81, 82, 83, 84, 85, 86, 87,
     88, 89, 90, 97, 98, 99, 100, 101, 102, 103, 104, 105, 106, 107, 108, 109, 110, 111, 112,
     113, 114, 115, 116, 117, 118, 119, 120, 121, 122, 48, 49, 50, 51, 52, 53, 54, 55, 56, 57,
     43, 47] := by
  decide +kernel

/-- The value of a symbol. -/
def value (b : UInt8) : Option Nat :=
  if 65 ≤ b ∧ b ≤ 90 then some (b.toNat - 65)
  else if 97 ≤ b ∧ b ≤ 122 then some (b.toNat - 71)
  else if 48 ≤ b ∧ b ≤ 57 then some (b.toNat + 4)
  else if b = 43 then some 62
  else if b = 47 then some 63
  else none

theorem value_symbol {n : Nat} (h : n < 64) : value (symbol n) = some n := by
  have hall : ∀ n < 64, value (symbol n) = some n := by
    simp only [symbol, alphabet_eq]
    decide +kernel
  exact hall n h

theorem symbol_value {b : UInt8} {n : Nat} (h : value b = some n) : n < 64 ∧ symbol n = b := by
  have hall : ∀ n : Fin 256, ∀ v ∈ value (UInt8.ofNat n.val),
      v < 64 ∧ symbol v = UInt8.ofNat n.val := by
    simp only [symbol, alphabet_eq]
    decide +kernel
  have hb := hall ⟨b.toNat, b.toNat_lt⟩ n
  rw [UInt8.ofNat_toNat] at hb
  exact hb h

/-- A symbol shows, and is no padding. -/
theorem symbol_visible {n : Nat} (h : n < 64) :
    32 < symbol n ∧ symbol n < 127 ∧ symbol n ≠ pad := by
  have hall : ∀ n < 64, 32 < symbol n ∧ symbol n < 127 ∧ symbol n ≠ pad := by
    simp only [symbol, alphabet_eq]
    decide +kernel
  exact hall n h

@[simp] theorem value_pad : value pad = none := by decide

/-! ## Encoding -/

/-- The 24 bits of three bytes. -/
def bits (a b c : UInt8) : Nat := 65536 * a.toNat + 256 * b.toNat + c.toNat

theorem bits_lt (a b c : UInt8) : bits a b c < 2 ^ 24 := by
  have ha := a.toNat_lt
  have hb := b.toNat_lt
  have hc := c.toNat_lt
  unfold bits
  omega

/-- The value of the `i`-th group of six bits, from the high end. -/
def sextet (n i : Nat) : Nat := n / 64 ^ (3 - i) % 64

theorem sextet_lt (n i : Nat) : sextet n i < 64 := Nat.mod_lt _ (by decide)

def encode : List UInt8 → List UInt8
  | [] => []
  | [a] => [symbol (sextet (bits a 0 0) 0), symbol (sextet (bits a 0 0) 1), pad, pad]
  | [a, b] =>
      [symbol (sextet (bits a b 0) 0), symbol (sextet (bits a b 0) 1),
        symbol (sextet (bits a b 0) 2), pad]
  | a :: b :: c :: rest =>
      symbol (sextet (bits a b c) 0) :: symbol (sextet (bits a b c) 1) ::
        symbol (sextet (bits a b c) 2) :: symbol (sextet (bits a b c) 3) :: encode rest

theorem length_encode (bytes : List UInt8) :
    (encode bytes).length = (bytes.length + 2) / 3 * 4 := by
  fun_induction encode bytes with
  | case1 | case2 | case3 => simp
  | case4 a b c rest ih => simp [ih]; omega

/-- Every byte of an encoding shows. -/
theorem encode_visible (bytes : List UInt8) : ∀ s ∈ encode bytes, 32 < s ∧ s < 127 := by
  have hsymbol : ∀ n i, 32 < symbol (sextet n i) ∧ symbol (sextet n i) < 127 := by
    intro n i
    obtain ⟨hlow, hhigh, _⟩ := symbol_visible (sextet_lt n i)
    exact ⟨hlow, hhigh⟩
  have hpad : 32 < pad ∧ pad < 127 := by decide
  fun_induction encode bytes with
  | case1 => simp
  | case2 a => simp [hsymbol, hpad]
  | case3 a b => simp [hsymbol, hpad]
  | case4 a b c rest ih => simpa [hsymbol] using ih

/-! ## Decoding -/

/-- The three bytes of 24 bits. -/
def bytesOf (n : Nat) : List UInt8 :=
  [UInt8.ofNat (n / 65536 % 256), UInt8.ofNat (n / 256 % 256), UInt8.ofNat (n % 256)]

/-- The last group, which may be padded: its unused bits are zero. -/
def decodeLast (w x y z : UInt8) : Option (List UInt8) :=
  if z = pad then
    if y = pad then do
      let n := 262144 * (← value w) + 4096 * (← value x)
      if n % 65536 = 0 then some ((bytesOf n).take 1) else none
    else do
      let n := 262144 * (← value w) + 4096 * (← value x) + 64 * (← value y)
      if n % 256 = 0 then some ((bytesOf n).take 2) else none
  else do
    some (bytesOf (262144 * (← value w) + 4096 * (← value x) + 64 * (← value y) + (← value z)))

def decode : List UInt8 → Option (List UInt8)
  | [] => some []
  | [w, x, y, z] => decodeLast w x y z
  | w :: x :: y :: z :: rest => do
      let n := 262144 * (← value w) + 4096 * (← value x) + 64 * (← value y) + (← value z)
      some (bytesOf n ++ (← decode rest))
  | _ => none

/-- Four groups of six bits are the 24 bits. -/
theorem sextets (n : Nat) (h : n < 2 ^ 24) :
    262144 * sextet n 0 + 4096 * sextet n 1 + 64 * sextet n 2 + sextet n 3 = n := by
  simp only [sextet]
  omega

theorem bytesOf_bits (a b c : UInt8) : bytesOf (bits a b c) = [a, b, c] := by
  have ha := a.toNat_lt
  have hb := b.toNat_lt
  have hc := c.toNat_lt
  have h1 : bits a b c / 65536 % 256 = a.toNat := by unfold bits; omega
  have h2 : bits a b c / 256 % 256 = b.toNat := by unfold bits; omega
  have h3 : bits a b c % 256 = c.toNat := by unfold bits; omega
  simp [bytesOf, h1, h2, h3]

theorem value_sextet (n i : Nat) : value (symbol (sextet n i)) = some (sextet n i) :=
  value_symbol (sextet_lt n i)

theorem symbol_sextet_ne_pad (n i : Nat) : symbol (sextet n i) ≠ pad :=
  (symbol_visible (sextet_lt n i)).2.2

theorem decodeLast_three (a b c : UInt8) :
    decodeLast (symbol (sextet (bits a b c) 0)) (symbol (sextet (bits a b c) 1))
      (symbol (sextet (bits a b c) 2)) (symbol (sextet (bits a b c) 3)) = some [a, b, c] := by
  simp [decodeLast, symbol_sextet_ne_pad, value_sextet, sextets _ (bits_lt a b c), bytesOf_bits]

theorem decode_four (w x y z : UInt8) : decode [w, x, y, z] = decodeLast w x y z := rfl

/-- The last group of an encoding whose last byte is missing. -/
theorem decodeLast_two (a b : UInt8) :
    decodeLast (symbol (sextet (bits a b 0) 0)) (symbol (sextet (bits a b 0) 1))
      (symbol (sextet (bits a b 0) 2)) pad = some [a, b] := by
  have hlow : bits a b 0 % 256 = 0 := by simp [bits]; omega
  have hlast : sextet (bits a b 0) 3 = 0 := by simp only [sextet]; omega
  have hsum := sextets _ (bits_lt a b 0)
  rw [hlast, Nat.add_zero] at hsum
  simp [decodeLast, value_sextet, symbol_sextet_ne_pad, hsum, hlow, bytesOf_bits]

/-- The last group of an encoding whose last two bytes are missing. -/
theorem decodeLast_one (a : UInt8) :
    decodeLast (symbol (sextet (bits a 0 0) 0)) (symbol (sextet (bits a 0 0) 1)) pad pad =
      some [a] := by
  have hlow : bits a 0 0 % 65536 = 0 := by simp [bits]
  have hlast : sextet (bits a 0 0) 3 = 0 := by simp only [sextet]; omega
  have hthird : sextet (bits a 0 0) 2 = 0 := by simp only [sextet]; omega
  have hsum := sextets _ (bits_lt a 0 0)
  rw [hlast, hthird, Nat.mul_zero, Nat.add_zero] at hsum
  simp [decodeLast, value_sextet, hsum, hlow, bytesOf_bits]

/-- **What was encoded is decoded.** -/
theorem decode_encode (bytes : List UInt8) : decode (encode bytes) = some bytes := by
  fun_induction encode bytes with
  | case1 => rfl
  | case2 a => rw [decode_four, decodeLast_one]
  | case3 a b => rw [decode_four, decodeLast_two]
  | case4 a b c rest ih =>
      cases hrest : encode rest with
      | nil =>
          have hlen := length_encode rest
          rw [hrest] at hlen
          have hnil : rest = [] := List.length_eq_zero_iff.mp (by simp at hlen; omega)
          rw [hnil, decode_four, decodeLast_three]
      | cons s more =>
          rw [hrest] at ih
          simp [decode, value_sextet, sextets _ (bits_lt a b c), bytesOf_bits, ih]

/-- Six bits of what four values make. -/
theorem sextet_of_values {w x y z : Nat} (hw : w < 64) (hx : x < 64) (hy : y < 64) (hz : z < 64) :
    let n := 262144 * w + 4096 * x + 64 * y + z
    n < 2 ^ 24 ∧ sextet n 0 = w ∧ sextet n 1 = x ∧ sextet n 2 = y ∧ sextet n 3 = z := by
  simp only [sextet]
  omega

/-- The bytes of 24 bits, as bytes. -/
theorem bits_of_bytes {n : Nat} (h : n < 2 ^ 24) :
    bits (UInt8.ofNat (n / 65536 % 256)) (UInt8.ofNat (n / 256 % 256)) (UInt8.ofNat (n % 256)) = n := by
  have hbyte : ∀ m : Nat, (UInt8.ofNat (m % 256)).toNat = m % 256 := by
    intro m
    rw [UInt8.toNat_ofNat']
    exact Nat.mod_mod ..
  rw [bits, hbyte, hbyte, hbyte]
  omega

theorem encode_decodeLast {w x y z : UInt8} {bytes : List UInt8}
    (h : decodeLast w x y z = some bytes) : encode bytes = [w, x, y, z] := by
  unfold decodeLast at h
  split_ifs at h with hz hy <;> simp only [bind, Option.bind_eq_some_iff] at h
  · obtain ⟨vw, hvw, vx, hvx, h⟩ := h
    obtain ⟨hw, rfl⟩ := symbol_value hvw
    obtain ⟨hx, rfl⟩ := symbol_value hvx
    split_ifs at h with hlow
    cases h
    have hn := sextet_of_values hw hx (by decide : 0 < 64) (by decide : 0 < 64)
    simp only [Nat.mul_zero, Nat.add_zero] at hn
    obtain ⟨hlt, h0, h1, _, _⟩ := hn
    have hbits := bits_of_bytes hlt
    have hb : (262144 * vw + 4096 * vx) / 256 % 256 = 0 := by omega
    have hc : (262144 * vw + 4096 * vx) % 256 = 0 := by omega
    rw [hb, hc] at hbits
    simp only [bytesOf, List.take_succ_cons, List.take_zero, encode]
    rw [show bits _ 0 0 = _ from hbits, h0, h1, hz, hy]
  · obtain ⟨vw, hvw, vx, hvx, vy, hvy, h⟩ := h
    obtain ⟨hw, rfl⟩ := symbol_value hvw
    obtain ⟨hx, rfl⟩ := symbol_value hvx
    obtain ⟨hy', rfl⟩ := symbol_value hvy
    split_ifs at h with hlow
    cases h
    have hn := sextet_of_values hw hx hy' (by decide : 0 < 64)
    simp only [Nat.add_zero] at hn
    obtain ⟨hlt, h0, h1, h2, _⟩ := hn
    have hbits := bits_of_bytes hlt
    rw [hlow] at hbits
    simp only [bytesOf, List.take_succ_cons, List.take_zero, encode]
    rw [show bits _ _ 0 = _ from hbits, h0, h1, h2, hz]
  · obtain ⟨vw, hvw, vx, hvx, vy, hvy, vz, hvz, h⟩ := h
    obtain ⟨hw, rfl⟩ := symbol_value hvw
    obtain ⟨hx, rfl⟩ := symbol_value hvx
    obtain ⟨hy', rfl⟩ := symbol_value hvy
    obtain ⟨hz', rfl⟩ := symbol_value hvz
    cases h
    obtain ⟨hlt, h0, h1, h2, h3⟩ := sextet_of_values hw hx hy' hz'
    simp only [bytesOf, encode]
    rw [bits_of_bytes hlt, h0, h1, h2, h3]

/-- **What was decoded is encoded**: nothing else decodes to the same bytes. -/
theorem encode_decode (text : List UInt8) : ∀ {bytes : List UInt8}, decode text = some bytes →
    encode bytes = text := by
  fun_induction decode text with
  | case1 => rintro _ ⟨⟩; rfl
  | case2 w x y z => exact encode_decodeLast
  | case3 w x y z rest hrest ih =>
      intro bytes h
      simp only [bind, Option.bind_eq_some_iff] at h
      obtain ⟨vw, hvw, vx, hvx, vy, hvy, vz, hvz, more, hmore, h⟩ := h
      obtain ⟨hw, rfl⟩ := symbol_value hvw
      obtain ⟨hx, rfl⟩ := symbol_value hvx
      obtain ⟨hy, rfl⟩ := symbol_value hvy
      obtain ⟨hz, rfl⟩ := symbol_value hvz
      cases h
      obtain ⟨hlt, h0, h1, h2, h3⟩ := sextet_of_values hw hx hy hz
      simp only [bytesOf, List.cons_append, List.nil_append, encode]
      rw [bits_of_bytes hlt, h0, h1, h2, h3, ih hmore]
  | case4 => intro _ h; cases h

/-- The bytes that a text encodes. -/
theorem decode_eq_some_iff {text bytes : List UInt8} :
    decode text = some bytes ↔ text = encode bytes := by
  constructor
  · intro h
    exact (encode_decode text h).symm
  · intro h
    rw [h, decode_encode]

end Bowst.Lib.Base64
