/-
Bowst.Venue.HandshakeTheorems — which upgrade responses are accepted, and that the
answer does not depend on how the response arrives.

The loop over the header lines keeps what the last `Upgrade` and the last
`Connection` line said (`readLines_ok_iff`). A response that is read to its end, or
refused, is read so when more arrives (`parseResponse_settles`).

  §1 Keys    — the key and the accept value are the encodings of their bytes.
  §2 Fields  — what header lines say together.
  §3 Replies — accepted responses, and responses that arrive in pieces.
-/
import Bowst.Lib.Incremental
import Bowst.Venue.Handshake
import Bowst.Venue.HttpTheorems

namespace Bowst.Venue

open Bowst.Core Bowst.Lib

/-! ## §1 Keys -/

theorem base64Symbol_eq (n : Nat) : base64Symbol n = Base64.symbol (n % 64) := by
  rw [base64Symbol, Nat.and_two_pow_sub_one_eq_mod n 6]
  rfl

/-- The bits of three bytes, put together by shifts. -/
theorem shifted_bits (a b c : UInt8) :
    a.toNat <<< 16 ||| b.toNat <<< 8 ||| c.toNat = Base64.bits a b c := by
  have hb := b.toNat_lt
  have hc := c.toNat_lt
  have h1 : a.toNat <<< 16 ||| b.toNat <<< 8 = (a.toNat <<< 8 + b.toNat) <<< 8 := by
    have hor := Nat.shiftLeft_add_eq_or_of_lt (i := 8) hb a.toNat
    rw [hor, Nat.shiftLeft_or_distrib, ← Nat.shiftLeft_add]
  rw [h1, ← Nat.shiftLeft_add_eq_or_of_lt (i := 8) hc]
  simp only [Nat.shiftLeft_eq, Base64.bits]
  ring

theorem base64Symbol_shift (n i : Nat) :
    base64Symbol (n >>> (6 * (3 - i))) = Base64.symbol (Base64.sextet n i) := by
  rw [base64Symbol_eq, Base64.sextet, Nat.shiftRight_eq_div_pow, Nat.pow_mul]

@[simp] theorem length_encodeChunk (chunk : Bytes) : (encodeChunk chunk).length = 4 := rfl

/-- A chunk is encoded in the four groups of its bits, padded. -/
theorem encodeChunk_eq (chunk : Bytes) :
    encodeChunk chunk =
      let n := Base64.bits (chunk.getD 0 0) (chunk.getD 1 0) (chunk.getD 2 0)
      [Base64.symbol (Base64.sextet n 0), Base64.symbol (Base64.sextet n 1),
        if chunk.length > 1 then Base64.symbol (Base64.sextet n 2) else 61,
        if chunk.length > 2 then Base64.symbol (Base64.sextet n 3) else 61] := by
  simp only [encodeChunk, shifted_bits, ← base64Symbol_shift]
  rfl

/-- One round of the encoder, with room for its symbols. -/
theorem base64Encode_step {input out : Bytes} (hinput : input ≠ []) (hout : 4 ≤ out.length) :
    base64Encode input out =
      encodeChunk (input.take 3) ++ base64Encode (input.drop 3) (out.drop 4) := by
  have hne : out ≠ [] := List.ne_nil_of_length_pos (by omega)
  rw [base64Encode, if_neg (by simp [hinput, hne]),
    List.take_of_length_le (by simp; omega)]

/-- The encoder in groups is that of the library. -/
theorem base64Encode_eq (input : Bytes) : ∀ out : Bytes,
    out.length = (input.length + 2) / 3 * 4 → base64Encode input out = Base64.encode input := by
  fun_induction Base64.encode input with
  | case1 =>
      intro out h
      have hnil : out = [] := List.length_eq_zero_iff.mp (by simpa using h)
      rw [base64Encode, if_pos (.inl rfl), hnil]
  | case2 a =>
      intro out h
      have hdrop : out.drop 4 = [] := List.drop_eq_nil_of_le (by simp at h; omega)
      rw [base64Encode_step (by simp) (by simp at h; omega), encodeChunk_eq, hdrop, base64Encode]
      simp [Base64.pad]
  | case3 a b =>
      intro out h
      have hdrop : out.drop 4 = [] := List.drop_eq_nil_of_le (by simp at h; omega)
      rw [base64Encode_step (by simp) (by simp at h; omega), encodeChunk_eq, hdrop, base64Encode]
      simp [Base64.pad]
  | case4 a b c rest ih =>
      intro out h
      rw [base64Encode_step (by simp) (by simp at h; omega), encodeChunk_eq]
      have hrest := ih (out.drop 4) (by simp at h ⊢; omega)
      simp [hrest]

theorem validUtf8_encode (bytes : Bytes) : validUtf8 (Base64.encode bytes) = true := by
  refine validUtf8_of_ascii fun b hb => ?_
  have hlt := (Base64.encode_visible bytes b hb).2
  simp only [UInt8.lt_iff_toNat_lt] at hlt ⊢
  exact Nat.lt_trans hlt (by decide)

namespace Handshake

variable (sha1 : Bytes → Vector UInt8 20) (random : Vector UInt8 16)

@[simp] theorem key_new : (new sha1 random).key = Base64.encode random.toList := by
  have hkey : (new sha1 random).keyBytes = Base64.encode random.toList :=
    base64Encode_eq _ _ (by simp [keyLen])
  rw [key, hkey, if_pos (validUtf8_encode _)]

@[simp] theorem expectedAccept_new : (new sha1 random).expectedAccept =
    Base64.encode (sha1 (Base64.encode random.toList ++ acceptGuid)).toList := by
  have hkey : (new sha1 random).keyBytes = Base64.encode random.toList :=
    base64Encode_eq _ _ (by simp [keyLen])
  have haccept : (new sha1 random).acceptBytes =
      Base64.encode (sha1 ((new sha1 random).keyBytes ++ acceptGuid)).toList :=
    base64Encode_eq _ _ (by simp [acceptLen])
  rw [expectedAccept, haccept, if_pos (validUtf8_encode _), hkey]

end Handshake

/-! ## §2 Fields -/

/-- A header line taken apart: its name, and its value without the white space around. -/
def headerField (line : Bytes) : Option (Bytes × Bytes) :=
  (splitOnce 58 line).map fun (name, value) => (name, trim value)

/-- The values of the fields of one name, in any case. -/
def valuesOf (known : String) (fields : List (Bytes × Bytes)) : List Bytes :=
  (fields.filter fun field => eqIgnoreAsciiCase field.1 (ascii known)).map Prod.snd

@[simp] theorem valuesOf_nil (known : String) : valuesOf known [] = [] := rfl

theorem valuesOf_cons (known : String) (field : Bytes × Bytes) (fields : List (Bytes × Bytes)) :
    valuesOf known (field :: fields) = valuesOf known [field] ++ valuesOf known fields := by
  unfold valuesOf
  rw [← List.map_append, ← List.filter_append]
  rfl

/-- A name is at most one of two that are different. -/
theorem eqIgnoreAsciiCase_unique {name a b : Bytes} (h : eqIgnoreAsciiCase name a = true)
    (hne : a.map toAsciiLowercase ≠ b.map toAsciiLowercase) : eqIgnoreAsciiCase name b = false := by
  have heq : name.map toAsciiLowercase = a.map toAsciiLowercase := of_decide_eq_true h
  rw [eqIgnoreAsciiCase, heq]
  exact decide_eq_false hne

namespace Handshake

variable (h : Handshake)

/-- Fields that refuse no reply: the right accept value, nothing unrequested. -/
structure Clean (fields : List (Bytes × Bytes)) : Prop where
  accept : ∀ value ∈ valuesOf "sec-websocket-accept" fields, value = h.expectedAccept
  extensions : valuesOf "sec-websocket-extensions" fields = []
  subprotocol : valuesOf "sec-websocket-protocol" fields = []

/-- What was seen, after more fields: of each name, what its last field says. -/
def Seen.after (seen : Seen) (fields : List (Bytes × Bytes)) : Seen where
  upgrade := (valuesOf "upgrade" fields).getLast?.elim seen.upgrade
    fun value => eqIgnoreAsciiCase value (ascii "websocket")
  connection := (valuesOf "connection" fields).getLast?.elim seen.connection hasUpgradeToken
  accept := seen.accept || !(valuesOf "sec-websocket-accept" fields).isEmpty

variable {h}

theorem clean_nil : h.Clean [] := ⟨by simp, rfl, rfl⟩

@[simp] theorem Seen.after_nil (seen : Seen) : seen.after [] = seen := by
  simp [after]

theorem clean_cons (field : Bytes × Bytes) (fields : List (Bytes × Bytes)) :
    h.Clean (field :: fields) ↔ h.Clean [field] ∧ h.Clean fields := by
  constructor
  · rintro ⟨haccept, hextensions, hsubprotocol⟩
    rw [valuesOf_cons] at haccept hextensions hsubprotocol
    rw [List.append_eq_nil_iff] at hextensions hsubprotocol
    exact ⟨⟨fun v hv => haccept v (List.mem_append_left _ hv), hextensions.1, hsubprotocol.1⟩,
      ⟨fun v hv => haccept v (List.mem_append_right _ hv), hextensions.2, hsubprotocol.2⟩⟩
  · rintro ⟨⟨ha, he, hs⟩, ⟨ha', he', hs'⟩⟩
    refine ⟨?_, ?_, ?_⟩ <;> rw [valuesOf_cons]
    · intro v hv
      exact (List.mem_append.mp hv).elim (ha v) (ha' v)
    · rw [he, he']
      rfl
    · rw [hs, hs']
      rfl

theorem valuesOf_single (known : String) (name value : Bytes) :
    valuesOf known [(name, value)] =
      if eqIgnoreAsciiCase name (ascii known) then [value] else [] := by
  unfold valuesOf
  rw [List.filter_singleton]
  cases eqIgnoreAsciiCase name (ascii known) <;> rfl

theorem clean_single {name value : Bytes} :
    h.Clean [(name, value)] ↔
      (eqIgnoreAsciiCase name (ascii "sec-websocket-accept") = true → value = h.expectedAccept) ∧
        eqIgnoreAsciiCase name (ascii "sec-websocket-extensions") = false ∧
        eqIgnoreAsciiCase name (ascii "sec-websocket-protocol") = false := by
  constructor
  · rintro ⟨haccept, hextensions, hsubprotocol⟩
    simp only [valuesOf_single] at haccept hextensions hsubprotocol
    refine ⟨fun hname => haccept value (by simp [hname]), ?_, ?_⟩
    · simpa using hextensions
    · simpa using hsubprotocol
  · rintro ⟨haccept, hextensions, hsubprotocol⟩
    refine ⟨?_, by simp [valuesOf_single, hextensions], by simp [valuesOf_single, hsubprotocol]⟩
    intro v hv
    rw [valuesOf_single] at hv
    split_ifs at hv with hname
    · rw [List.mem_singleton.mp hv]
      exact haccept hname
    · cases hv

theorem Seen.after_cons (seen : Seen) (field : Bytes × Bytes) (fields : List (Bytes × Bytes)) :
    seen.after (field :: fields) = (seen.after [field]).after fields := by
  have hlast : ∀ (known : String) (b : Bool) (read : Bytes → Bool),
      (valuesOf known (field :: fields)).getLast?.elim b read =
        (valuesOf known fields).getLast?.elim ((valuesOf known [field]).getLast?.elim b read) read := by
    intro known b read
    rw [valuesOf_cons, List.getLast?_append]
    cases (valuesOf known fields).getLast? <;> simp
  have hany : (valuesOf "sec-websocket-accept" (field :: fields)).isEmpty =
      ((valuesOf "sec-websocket-accept" [field]).isEmpty &&
        (valuesOf "sec-websocket-accept" fields).isEmpty) := by
    rw [valuesOf_cons]
    cases valuesOf "sec-websocket-accept" [field] <;> simp
  simp only [after, hlast, hany]
  simp [Bool.or_assoc]

/-- One line: its field refuses nothing, and says what it says. -/
theorem readLine_ok_iff {seen seen' : Seen} {line : Bytes} :
    h.readLine seen line = .ok seen' ↔
      ∃ field, headerField line = some field ∧ h.Clean [field] ∧ seen.after [field] = seen' := by
  unfold readLine headerField
  cases splitOnce 58 line with
  | none => simp
  | some pair =>
      obtain ⟨name, value⟩ := pair
      simp only [Option.map_some, Option.some.injEq, exists_eq_left', clean_single, Seen.after,
        valuesOf_single]
      by_cases hupgrade : eqIgnoreAsciiCase name (ascii "upgrade") = true
      · have h1 : eqIgnoreAsciiCase name (ascii "connection") = false :=
          eqIgnoreAsciiCase_unique hupgrade (by decide)
        have h2 : eqIgnoreAsciiCase name (ascii "sec-websocket-accept") = false :=
          eqIgnoreAsciiCase_unique hupgrade (by decide)
        have h3 : eqIgnoreAsciiCase name (ascii "sec-websocket-extensions") = false :=
          eqIgnoreAsciiCase_unique hupgrade (by decide)
        have h4 : eqIgnoreAsciiCase name (ascii "sec-websocket-protocol") = false :=
          eqIgnoreAsciiCase_unique hupgrade (by decide)
        simp [hupgrade, h1, h2, h3, h4]
      by_cases hconnection : eqIgnoreAsciiCase name (ascii "connection") = true
      · have h2 : eqIgnoreAsciiCase name (ascii "sec-websocket-accept") = false :=
          eqIgnoreAsciiCase_unique hconnection (by decide)
        have h3 : eqIgnoreAsciiCase name (ascii "sec-websocket-extensions") = false :=
          eqIgnoreAsciiCase_unique hconnection (by decide)
        have h4 : eqIgnoreAsciiCase name (ascii "sec-websocket-protocol") = false :=
          eqIgnoreAsciiCase_unique hconnection (by decide)
        simp [hupgrade, hconnection, h2, h3, h4]
      by_cases haccept : eqIgnoreAsciiCase name (ascii "sec-websocket-accept") = true
      · have h3 : eqIgnoreAsciiCase name (ascii "sec-websocket-extensions") = false :=
          eqIgnoreAsciiCase_unique haccept (by decide)
        have h4 : eqIgnoreAsciiCase name (ascii "sec-websocket-protocol") = false :=
          eqIgnoreAsciiCase_unique haccept (by decide)
        by_cases hvalue : trim value = h.expectedAccept <;>
          simp [hupgrade, hconnection, haccept, h3, h4, hvalue]
      by_cases hextensions : eqIgnoreAsciiCase name (ascii "sec-websocket-extensions") = true
      · simp [hupgrade, hconnection, haccept, hextensions]
      · by_cases hsubprotocol : eqIgnoreAsciiCase name (ascii "sec-websocket-protocol") = true <;>
          simp [hupgrade, hconnection, haccept, hextensions, hsubprotocol]

/-- The loop over the lines: every line is a field, no field refuses the reply, and
of each name the last field counts. -/
theorem readLines_ok_iff : ∀ {lines : List Bytes} {seen seen' : Seen},
    h.readLines seen lines = .ok seen' ↔
      ∃ fields, lines.mapM headerField = some fields ∧ h.Clean fields ∧
        seen.after fields = seen' := by
  intro lines
  induction lines with
  | nil => intro seen seen'; simp [readLines, clean_nil]
  | cons line lines ih =>
      intro seen seen'
      simp only [readLines, List.mapM_cons, Option.bind_eq_bind, Option.bind_eq_some_iff]
      constructor
      · intro hread
        cases hline : h.readLine seen line with
        | error err => simp [hline] at hread
        | ok next =>
            simp only [hline] at hread
            obtain ⟨field, hfield, hclean, rfl⟩ := readLine_ok_iff.mp hline
            obtain ⟨fields, hfields, hclean', rfl⟩ := ih.mp hread
            exact ⟨field :: fields, ⟨field, hfield, fields, hfields, rfl⟩,
              (clean_cons field fields).mpr ⟨hclean, hclean'⟩, seen.after_cons field fields⟩
      · rintro ⟨_, ⟨field, hfield, fields, hfields, ⟨⟩⟩, hclean, rfl⟩
        obtain ⟨hclean, hclean'⟩ := (clean_cons field fields).mp hclean
        rw [readLine_ok_iff.mpr ⟨field, hfield, hclean, rfl⟩]
        exact ih.mpr ⟨fields, hfields, hclean', (seen.after_cons field fields).symm⟩

/-! ## §3 Replies -/

/-- A reply that opens the connection, by its status line and its fields: the last
`Upgrade` and the last `Connection` agree to switch, every accept value decodes to the
digest of the key and one is there, and nothing comes that was not requested. -/
structure Opens (digest status : Bytes) (fields : List (Bytes × Bytes)) : Prop where
  switching : isSwitching status = true
  upgrade : ∃ value ∈ (valuesOf "upgrade" fields).getLast?,
    eqIgnoreAsciiCase value (ascii "websocket") = true
  connection : ∃ value ∈ (valuesOf "connection" fields).getLast?, hasUpgradeToken value = true
  accepted : valuesOf "sec-websocket-accept" fields ≠ []
  accept : ∀ value ∈ valuesOf "sec-websocket-accept" fields, Base64.decode value = some digest
  extensions : valuesOf "sec-websocket-extensions" fields = []
  subprotocol : valuesOf "sec-websocket-protocol" fields = []

/-- A flag that starts unset is set by the last value. -/
theorem elim_false_iff {values : List Bytes} {read : Bytes → Bool} :
    values.getLast?.elim false read = true ↔ ∃ value ∈ values.getLast?, read value = true := by
  cases values.getLast? <;> simp

theorem opens_iff {digest status : Bytes} {fields : List (Bytes × Bytes)}
    (hexpected : h.expectedAccept = Base64.encode digest) :
    Opens digest status fields ↔
      isSwitching status = true ∧ h.Clean fields ∧
        (Seen.after ⟨false, false, false⟩ fields) = ⟨true, true, true⟩ := by
  have hdecode : ∀ value, Base64.decode value = some digest ↔ value = h.expectedAccept := by
    intro value
    rw [hexpected, Base64.decode_eq_some_iff]
  simp only [Seen.after, Seen.mk.injEq, elim_false_iff, Bool.false_or, Bool.not_eq_true',
    List.isEmpty_eq_false_iff]
  constructor
  · rintro ⟨hswitching, hupgrade, hconnection, haccepted, haccept, hextensions, hsubprotocol⟩
    exact ⟨hswitching, ⟨fun v hv => (hdecode v).mp (haccept v hv), hextensions, hsubprotocol⟩,
      hupgrade, hconnection, haccepted⟩
  · rintro ⟨hswitching, ⟨haccept, hextensions, hsubprotocol⟩, hupgrade, hconnection, haccepted⟩
    exact ⟨hswitching, hupgrade, hconnection, haccepted,
      fun v hv => (hdecode v).mpr (haccept v hv), hextensions, hsubprotocol⟩

theorem readHead_ok_iff {digest head : Bytes} (hexpected : h.expectedAccept = Base64.encode digest) :
    h.readHead head = .ok () ↔
      ∃ status lines fields, splitCrlf head = status :: lines ∧
        lines.mapM headerField = some fields ∧ Opens digest status fields := by
  obtain ⟨status, lines, hsplit⟩ := List.exists_cons_of_ne_nil (splitCrlf_ne_nil head)
  simp only [readHead, hsplit, List.headD_cons, List.tail_cons, List.cons.injEq, opens_iff hexpected]
  constructor
  · intro hread
    split_ifs at hread with hswitching
    cases hlines : h.readLines ⟨false, false, false⟩ lines with
    | error err => simp [hlines] at hread
    | ok seen =>
        obtain ⟨fields, hfields, hclean, hseen⟩ := readLines_ok_iff.mp hlines
        obtain ⟨upgrade, connection, accept⟩ := seen
        simp only [hlines] at hread
        split_ifs at hread with hupgrade hconnection haccept
        refine ⟨status, lines, fields, ⟨rfl, rfl⟩, hfields, by simpa using hswitching, hclean, ?_⟩
        rw [hseen]
        simp_all
  · rintro ⟨_, _, fields, ⟨rfl, rfl⟩, hfields, hswitching, hclean, hseen⟩
    rw [readLines_ok_iff.mpr ⟨fields, hfields, hclean, hseen⟩]
    simp [hswitching]

/-- More bytes do not change what was read. -/
theorem parseResponse_settles (h : Handshake) : Settles h.parseResponse := by
  intro xs ys hxs
  unfold parseResponse at hxs ⊢
  cases hfind : findPattern blankLine xs with
  | some fin =>
      have hle := findPattern_le hfind
      rw [findPattern_append ys hfind]
      simp only [List.take_append_of_le_length (show fin ≤ xs.length by omega)]
  | none =>
      simp only [hfind] at hxs
      split_ifs at hxs with hlong
      · have hlong' : maxResponseHeaders < (xs ++ ys).length := by
          rw [List.length_append]
          omega
        cases hfind' : findPattern blankLine (xs ++ ys) with
        | none => simp only [if_pos hlong, if_pos hlong']
        | some fin =>
            have hbehind := findPattern_append_of_none blankLine_ne_nil hfind hfind'
            rw [show blankLine.length = 4 from rfl] at hbehind
            simp only [if_pos hlong]
            rw [if_pos (by omega)]
      · exact absurd rfl hxs

/-- A complete response has an end, its empty line. -/
theorem parseResponse_some {buf : Bytes} {n : Nat} (hparse : h.parseResponse buf = .ok (some n)) :
    ∃ fin, findPattern blankLine buf = some fin ∧ n = fin + 4 := by
  unfold parseResponse at hparse
  cases hfind : findPattern blankLine buf with
  | none =>
      simp only [hfind] at hparse
      split_ifs at hparse
      cases hparse
  | some fin =>
      simp only [hfind] at hparse
      split_ifs at hparse
      cases hhead : h.readHead (buf.take fin) with
      | error err => simp [hhead] at hparse
      | ok read =>
          simp only [hhead, Except.ok.injEq, Option.some.injEq] at hparse
          exact ⟨fin, rfl, hparse.symm⟩

theorem parseResponse_length (h : Handshake) {buf : Bytes} {n : Nat}
    (hparse : h.parseResponse buf = .ok (some n)) : n ≤ buf.length := by
  obtain ⟨fin, hfind, rfl⟩ := parseResponse_some hparse
  exact findPattern_le hfind

/-- What completes a response ends behind what left it incomplete. -/
theorem parseResponse_behind (h : Handshake) {xs ys : Bytes} {n : Nat}
    (hnone : h.parseResponse xs = .ok none) (hparse : h.parseResponse (xs ++ ys) = .ok (some n)) :
    xs.length < n := by
  obtain ⟨fin, hfind, rfl⟩ := parseResponse_some hparse
  have hxs : findPattern blankLine xs = none := by
    cases hfind' : findPattern blankLine xs with
    | none => rfl
    | some fin' =>
        unfold parseResponse at hnone
        simp only [hfind'] at hnone
        split_ifs at hnone
        cases hhead : h.readHead (xs.take fin') <;> simp [hhead] at hnone
  exact findPattern_append_of_none blankLine_ne_nil hxs hfind

theorem parseResponse_ok_iff {digest buf : Bytes} {n : Nat}
    (hexpected : h.expectedAccept = Base64.encode digest) :
    h.parseResponse buf = .ok (some n) ↔
      n ≤ maxResponseHeaders ∧ ∃ head rest, buf = head ++ blankLine ++ rest ∧
        n = head.length + 4 ∧ findPattern blankLine buf = some head.length ∧
        validUtf8 head = true ∧ ∃ status lines fields, splitCrlf head = status :: lines ∧
          lines.mapM headerField = some fields ∧ Opens digest status fields := by
  unfold parseResponse
  constructor
  · intro hparse
    cases hfind : findPattern blankLine buf with
    | none =>
        simp only [hfind] at hparse
        split_ifs at hparse
        cases hparse
    | some fin =>
        simp only [hfind] at hparse
        split_ifs at hparse with hlong hutf8
        cases hhead : h.readHead (buf.take fin) with
        | error err => simp [hhead] at hparse
        | ok read =>
            simp only [hhead, Except.ok.injEq, Option.some.injEq] at hparse
            have hle := findPattern_le hfind
            have hlen : (buf.take fin).length = fin := List.length_take_of_le (by omega)
            obtain ⟨rest, hrest⟩ := findPattern_prefix hfind
            refine ⟨by omega, buf.take fin, rest, ?_, by omega, by rw [hlen],
              by simpa using hutf8, (readHead_ok_iff hexpected).mp hhead⟩
            rw [List.append_assoc, hrest, List.take_append_drop]
  · rintro ⟨hfits, head, rest, rfl, rfl, hfind, hutf8, hopens⟩
    have hhead : (head ++ blankLine ++ rest).take head.length = head := by
      rw [List.append_assoc, List.take_left]
    simp only [hfind, hhead, hutf8, (readHead_ok_iff hexpected).mpr hopens]
    rw [if_neg (by omega)]
    simp

end Handshake

/-- **Exactly the right replies open a connection.** Whatever has arrived, the
upgrade is accepted after `n` bytes if and only if these are a block of header lines
of at most the limit, ending in the first empty line, with a status line and fields
that open the connection for the digest of the key that was sent: in any order, any
case, with any other fields among them. -/
theorem upgrade_accepted_iff (sha1 : Bytes → Vector UInt8 20) (random : Vector UInt8 16)
    (buf : Bytes) (n : Nat) :
    (Handshake.new sha1 random).parseResponse buf = .ok (some n) ↔
      n ≤ maxResponseHeaders ∧ ∃ head rest, buf = head ++ blankLine ++ rest ∧
        n = head.length + 4 ∧ findPattern blankLine buf = some head.length ∧
        validUtf8 head = true ∧ ∃ status lines fields, splitCrlf head = status :: lines ∧
          lines.mapM headerField = some fields ∧
          Handshake.Opens (sha1 (Base64.encode random.toList ++ acceptGuid)).toList status fields :=
  Handshake.parseResponse_ok_iff (Handshake.expectedAccept_new sha1 random)

end Bowst.Venue
