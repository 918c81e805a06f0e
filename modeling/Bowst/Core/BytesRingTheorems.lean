/-
Bowst.Core.BytesRingTheorems — the byte ring is a FIFO of records.

Positions are followed without their wrap-around (`RingView`): the producer's
cached head, the head, the consumer's cached tail and the tail, in this order
and no more than the capacity apart. Between head and tail the buffer holds the
queue, record by record.

  §1 Stored  — what one record looks like in the buffer, directly at a position
               or after a wrap marker, and that writes outside leave it alone.
  §2 Inv     — the invariant of a ring, with what each side knows at each point
               of its call.
  §3 Steps   — every access keeps it.
  §4 Runs    — every interleaving.
-/
import Bowst.Core.BytesRing

namespace Bowst.Core

open Bowst.Lib

/-! ## §1 Stored -/

theorem padded_le (len : Nat) : len ≤ padded len ∧ padded len ≤ len + 7 ∧ padded len % 8 = 0 := by
  unfold padded
  omega

/-- A record at a position, in one piece: header, then payload. -/
structure Slot (cap : Nat) (buf : Bytes) (pos : Nat) (record : Bytes) : Prop where
  fits : pos % cap + BytesRing.recordSize record.length ≤ cap
  short : record.length + 8 ≤ cap / 2
  header : slice buf (pos % cap) 4 = toLe 4 record.length
  payload : slice buf (pos % cap + 8) record.length = record

/-- A record stored from `pos` to `fin`: at `pos`, or at the start of the buffer
after a marker where it would have run past the end. -/
inductive Stored (cap : Nat) (buf : Bytes) : Nat → Bytes → Nat → Prop
  | direct {pos : Nat} {record : Bytes} (slot : Slot cap buf pos record) :
      Stored cap buf pos record (pos + BytesRing.recordSize record.length)
  | wrapped {pos : Nat} {record : Bytes} (room : pos % cap + 8 ≤ cap)
      (straddles : cap - pos % cap < BytesRing.recordSize record.length)
      (marker : slice buf (pos % cap) 4 = toLe 4 wrapMarker)
      (slot : Slot cap buf (pos + (cap - pos % cap)) record) :
      Stored cap buf pos record
        (pos + (cap - pos % cap) + BytesRing.recordSize record.length)

/-- Records stored one after the other from `pos` to `fin`. -/
def Layout (cap : Nat) (buf : Bytes) : Nat → List Bytes → Nat → Prop
  | pos, [], fin => pos = fin
  | pos, record :: rest, fin => ∃ mid, Stored cap buf pos record mid ∧ Layout cap buf mid rest fin

section Layout

variable {cap : Nat} {buf : Bytes}

theorem recordSize_bounds (len : Nat) : len + 8 ≤ BytesRing.recordSize len ∧
    BytesRing.recordSize len ≤ len + 15 ∧ BytesRing.recordSize len % 8 = 0 := by
  have h := padded_le len
  unfold BytesRing.recordSize ringHeader
  omega

theorem Stored.lt {pos fin : Nat} {record : Bytes} (h : Stored cap buf pos record fin) :
    pos < fin := by
  have hsize := recordSize_bounds record.length
  cases h <;> omega

theorem Layout.le : ∀ {queue : List Bytes} {pos fin : Nat}, Layout cap buf pos queue fin →
    pos ≤ fin := by
  intro queue
  induction queue with
  | nil => intro pos fin h; exact le_of_eq h
  | cons record rest ih =>
      intro pos fin h
      obtain ⟨mid, hstored, hrest⟩ := h
      exact le_of_lt (lt_of_lt_of_le hstored.lt (ih hrest))

/-- There is a first record exactly when the positions differ. -/
theorem Layout.ne_nil {queue : List Bytes} {pos fin : Nat} (h : Layout cap buf pos queue fin)
    (hne : pos ≠ fin) : queue ≠ [] := by
  rintro rfl
  exact hne h

theorem Layout.append : ∀ {xs ys : List Bytes} {pos mid fin : Nat}, Layout cap buf pos xs mid →
    Layout cap buf mid ys fin → Layout cap buf pos (xs ++ ys) fin := by
  intro xs
  induction xs with
  | nil => intro ys pos mid fin hx hy; cases hx; exact hy
  | cons record rest ih =>
      intro ys pos mid fin hx hy
      obtain ⟨next, hstored, hrest⟩ := hx
      exact ⟨next, hstored, ih hrest hy⟩

/-- The range that a write at physical index `i` touches lies in the free part
of the round after `pos`: `[w, w + m)` by position, and `fin ≤ w`. -/
structure WritesAfter (cap fin pos i n w m : Nat) : Prop where
  after : fin ≤ w
  window : w + m ≤ pos + cap
  low : w % cap ≤ i
  high : i + n ≤ w % cap + m

/-- A range before the written one, read at any offset, is apart from it. -/
theorem WritesAfter.disjoint {fin pos i n w m p s : Nat} (hcap : 0 < cap)
    (h : WritesAfter cap fin pos i n w m) (hp : pos ≤ p) (hs : p + s ≤ fin) {off len : Nat}
    (hoff : off + len ≤ s) :
    p % cap + off + len ≤ i ∨ i + n ≤ p % cap + off := by
  have h1 := h.after
  have h2 := h.window
  have h3 := h.low
  have h4 := h.high
  rcases window_disjoint (s := s) (n := m) hcap (show p + s ≤ w by omega)
    (show w + m ≤ p + cap by omega) with hd | hd
  · left; omega
  · right; omega

theorem Slot.splice {ys : Bytes} {pos p fin i w m : Nat} {record : Bytes} (hcap : 0 < cap)
    (h : Slot cap buf p record) (hbound : i + ys.length ≤ buf.length) (hp : pos ≤ p)
    (hend : p + BytesRing.recordSize record.length ≤ fin)
    (hw : WritesAfter cap fin pos i ys.length w m) : Slot cap (splice buf i ys) p record := by
  have hsize := recordSize_bounds record.length
  refine ⟨h.fits, h.short, ?_, ?_⟩
  · rw [slice_splice_of_disjoint hbound]
    · exact h.header
    · exact hw.disjoint hcap hp hend (show 0 + 4 ≤ BytesRing.recordSize record.length by omega)
  · rw [slice_splice_of_disjoint hbound]
    · exact h.payload
    · exact hw.disjoint hcap hp hend
        (show 8 + record.length ≤ BytesRing.recordSize record.length by omega)

theorem Stored.splice {ys : Bytes} {pos p fin i w m : Nat} {record : Bytes} {last : Nat}
    (hcap : 0 < cap) (h : Stored cap buf p record last) (hbound : i + ys.length ≤ buf.length)
    (hp : pos ≤ p) (hend : last ≤ fin) (hw : WritesAfter cap fin pos i ys.length w m) :
    Stored cap (splice buf i ys) p record last := by
  cases h with
  | direct slot => exact .direct (slot.splice hcap hbound hp hend hw)
  | wrapped room straddles marker slot =>
      refine .wrapped room straddles ?_ (slot.splice hcap hbound (by omega) hend hw)
      rw [slice_splice_of_disjoint hbound]
      · exact marker
      · exact hw.disjoint hcap hp (show p + 4 ≤ fin by omega) (show 0 + 4 ≤ 4 by omega)

/-- A write in the free part leaves the stored records as they are. -/
theorem Layout.splice {ys : Bytes} {pos fin i w m : Nat} (hcap : 0 < cap)
    (hbound : i + ys.length ≤ buf.length) (hw : WritesAfter cap fin pos i ys.length w m) :
    ∀ {queue : List Bytes} {p last : Nat}, pos ≤ p → last ≤ fin → Layout cap buf p queue last →
      Layout cap (splice buf i ys) p queue last := by
  intro queue
  induction queue with
  | nil => intro p last _ _ h; exact h
  | cons record rest ih =>
      intro p last hp hlast h
      obtain ⟨mid, hstored, hrest⟩ := h
      have hmid := hrest.le
      exact ⟨mid, hstored.splice hcap hbound hp (by omega) hw,
        ih (by have := hstored.lt; omega) hlast hrest⟩

end Layout

/-! ## §2 Inv -/

/-- The positions without their wrap-around, and the records between head and
cached tail (`seen`) and between cached tail and tail (`unseen`). -/
structure RingView where
  head : Nat
  cachedTail : Nat
  tail : Nat
  cachedHead : Nat
  seen : List Bytes
  unseen : List Bytes

/-- Bytes skipped and start index of a record written at position `tail`. -/
def place (cap tail len : Nat) : Nat × Nat :=
  if BytesRing.recordSize len > cap - tail % cap then (cap - tail % cap, 0) else (0, tail % cap)

/-- A record that may be written: short enough, and the bytes it needs are free
as far as the producer knows. -/
structure Writing (cap tail cachedHead len : Nat) : Prop where
  short : len + 8 ≤ cap / 2
  room : tail + (place cap tail len).1 + BytesRing.recordSize len ≤ cachedHead + cap

/-- The marker is there if one is needed. -/
def Marked (cap : Nat) (buf : Bytes) (tail len : Nat) : Prop :=
  0 < (place cap tail len).1 → slice buf (tail % cap) 4 = toLe 4 wrapMarker

/-- A record that a call can leave in its slice. -/
def WriteCall.Fills (call : WriteCall) (record : Bytes) : Prop :=
  ∃ dst : Bytes, dst.length = call.len ∧ call.fill dst = record

theorem WriteCall.Fills.length {call : WriteCall} {record : Bytes} (h : call.Fills record) :
    record.length = call.len := by
  obtain ⟨dst, hlen, rfl⟩ := h
  rw [call.length_fill, hlen]

/-- `push` writes its bytes. -/
theorem WriteCall.Fills.push {bytes record : Bytes} (h : (WriteCall.push bytes).Fills record) :
    record = bytes := by
  obtain ⟨dst, hlen, rfl⟩ := h
  exact if_pos hlen

/-- The payload is there. -/
def Filled (cap : Nat) (buf : Bytes) (tail : Nat) (call : WriteCall) (record : Bytes) : Prop :=
  call.Fills record ∧ slice buf ((place cap tail call.len).2 + 8) call.len = record

/-- What holds at each point of `write_with`. -/
def ProducerOk (cap : Nat) (buf : Bytes) (tail cachedHead : Nat) : ProducerPc → Prop
  | .idle => True
  | .loadHead call => call.len + 8 ≤ cap / 2
  | .writeMarker call => Writing cap tail cachedHead call.len ∧ 0 < (place cap tail call.len).1
  | .fillPayload call => Writing cap tail cachedHead call.len ∧ Marked cap buf tail call.len
  | .writeHeader call record =>
      Writing cap tail cachedHead call.len ∧ Marked cap buf tail call.len ∧
        Filled cap buf tail call record
  | .storeTail call record =>
      Writing cap tail cachedHead call.len ∧ Marked cap buf tail call.len ∧
        Filled cap buf tail call record ∧
        slice buf (place cap tail call.len).2 4 = toLe 4 call.len
  | .unreachable => False

/-- What holds at each point of `read_with` after `n` accesses of the call. The
second round of its loop finds a record, not a marker. -/
def ConsumerOk (cap : Nat) (buf : Bytes) (head : Nat) (seen : List Bytes) (n : Nat) :
    ConsumerPc → Prop
  | .idle => n = 0
  | .loadTail => n = 0
  | .readHeader => ∃ record rest, seen = record :: rest ∧
      (n ≤ 1 ∨ n ≤ 3 ∧ Slot cap buf head record)
  | .storeSkip => n ≤ 2 ∧ ∃ record rest, seen = record :: rest ∧
      cap - head % cap < BytesRing.recordSize record.length ∧
      Slot cap buf (head + (cap - head % cap)) record
  | .readPayload len => n ≤ 4 ∧ ∃ record rest, seen = record :: rest ∧ Slot cap buf head record ∧
      len = record.length
  | .storeHead len record => n ≤ 5 ∧ ∃ rest, seen = record :: rest ∧ Slot cap buf head record ∧
      len = record.length
  | .unreachable => False

/-- The invariant of a ring, `n` accesses into the consumer's call. -/
structure RingInv (r : BytesRing) (v : RingView) (n : Nat) : Prop where
  power : ∃ k, 6 ≤ k ∧ k ≤ 31 ∧ r.capacity = 2 ^ k
  length : r.buf.length = r.capacity
  head : r.head = v.head % usizeModulus
  consumerHead : r.consumer.head = v.head % usizeModulus
  cachedTail : r.consumer.cachedTail = v.cachedTail % usizeModulus
  tail : r.tail = v.tail % usizeModulus
  producerTail : r.producer.tail = v.tail % usizeModulus
  cachedHead : r.producer.cachedHead = v.cachedHead % usizeModulus
  behind : v.cachedHead ≤ v.head
  window : v.tail ≤ v.cachedHead + r.capacity
  aligned : v.tail % 8 = 0
  seen : Layout r.capacity r.buf v.head v.seen v.cachedTail
  unseen : Layout r.capacity r.buf v.cachedTail v.unseen v.tail
  producer : ProducerOk r.capacity r.buf v.tail v.cachedHead r.producer.pc
  consumer : ConsumerOk r.capacity r.buf v.head v.seen n r.consumer.pc

namespace RingInv

variable {r : BytesRing} {v : RingView} {n : Nat}

/-- The capacity is a multiple of 64 that divides the positions' modulus. -/
theorem capacity_spec (h : RingInv r v n) :
    64 ≤ r.capacity ∧ r.capacity % 64 = 0 ∧ r.capacity ≤ 2 ^ 31 ∧
      r.capacity ∣ usizeModulus := by
  obtain ⟨k, h1, h2, hk⟩ := h.power
  have hsplit : r.capacity = 2 ^ (k - 6) * 64 := by
    rw [hk, show (64 : Nat) = 2 ^ 6 from rfl, ← pow_add]
    congr 1
    omega
  have hpos : 0 < 2 ^ (k - 6) := Nat.two_pow_pos _
  have hle : r.capacity ≤ 2 ^ 31 := hk ▸ Nat.pow_le_pow_right (by norm_num) h2
  refine ⟨by omega, by omega, hle, ?_⟩
  rw [hk, usizeModulus]
  exact Nat.pow_dvd_pow 2 (by omega)

theorem mod_mod_capacity (h : RingInv r v n) (p : Nat) :
    p % usizeModulus % r.capacity = p % r.capacity := Nat.mod_mod_of_dvd p h.capacity_spec.2.2.2

theorem writeIndex_eq (h : RingInv r v n) : r.writeIndex = v.tail % r.capacity := by
  rw [BytesRing.writeIndex, h.producerTail, h.mod_mod_capacity]

theorem readIndex_eq (h : RingInv r v n) : r.readIndex = v.head % r.capacity := by
  rw [BytesRing.readIndex, h.consumerHead, h.mod_mod_capacity]

theorem placement_eq (h : RingInv r v n) (len : Nat) :
    r.placement len = place r.capacity v.tail len := by
  simp only [BytesRing.placement, place, h.writeIndex_eq]

theorem order (h : RingInv r v n) : v.head ≤ v.cachedTail ∧ v.cachedTail ≤ v.tail :=
  ⟨h.seen.le, h.unseen.le⟩

/-- Whether the ring looks full, in positions. -/
theorem looksFull_iff (h : RingInv r v n) (len : Nat) :
    r.looksFull len = true ↔
      v.cachedHead + r.capacity < v.tail + (place r.capacity v.tail len).1 + BytesRing.recordSize len := by
  have hcap := h.capacity_spec
  have hmod : (2 : Nat) ^ 31 < usizeModulus := by norm_num [usizeModulus]
  have hord := h.order
  have h1 := h.behind
  have h2 := h.window
  rw [BytesRing.looksFull, decide_eq_true_iff, h.producerTail, h.cachedHead,
    wrappingSub_mod (by omega) (by omega), BytesRing.needed, h.placement_eq]
  omega

end RingInv

/-- Where a record goes: by position, right after what is skipped, in one piece
before the end of the buffer. -/
theorem place_spec {cap len : Nat} (tail : Nat) (hcap : 64 ≤ cap) (hlen : len + 8 ≤ cap / 2) :
    (tail + (place cap tail len).1) % cap = (place cap tail len).2 ∧
      (place cap tail len).2 + BytesRing.recordSize len ≤ cap ∧
      ((place cap tail len).1 = 0 ∨
        (place cap tail len).1 = cap - tail % cap ∧ cap - tail % cap < BytesRing.recordSize len) := by
  have hsize := recordSize_bounds len
  have hlt := Nat.mod_lt tail (show 0 < cap by omega)
  unfold place
  by_cases h : BytesRing.recordSize len > cap - tail % cap
  · rw [if_pos h]
    exact ⟨mod_add_to_end (by omega) tail, by dsimp only; omega, Or.inr ⟨rfl, h⟩⟩
  · rw [if_neg h]
    exact ⟨rfl, by dsimp only; omega, Or.inl rfl⟩

/-- Indices of aligned positions are aligned, so a marker always has room. -/
theorem marker_room {cap tail : Nat} (hcap : 0 < cap) (h64 : cap % 64 = 0) (ht : tail % 8 = 0) :
    tail % cap % 8 = 0 ∧ tail % cap + 8 ≤ cap := by
  have hlt := Nat.mod_lt tail hcap
  have hdvd : 8 ∣ tail % cap := (Nat.dvd_mod_iff (by omega)).mpr (by omega)
  omega

/-- Any record that may be written fits an empty ring, with what it skips. -/
theorem place_le_capacity {cap len : Nat} (tail : Nat) (hcap : 64 ≤ cap) (h64 : cap % 64 = 0)
    (hlen : len + 8 ≤ cap / 2) : (place cap tail len).1 + BytesRing.recordSize len ≤ cap := by
  obtain ⟨_, hfits, hskip⟩ := place_spec tail hcap hlen
  have hhalf : BytesRing.recordSize len ≤ cap / 2 := by
    unfold BytesRing.recordSize ringHeader padded
    omega
  omega

/-- Writing the record leaves the marker before it alone. -/
theorem Marked.of_write {cap tail cachedHead len i : Nat} {buf ys : Bytes} (hcap : 64 ≤ cap)
    (hbehind : cachedHead ≤ tail) (hroom : tail % cap + 8 ≤ cap)
    (hwriting : Writing cap tail cachedHead len) (hmarked : Marked cap buf tail len)
    (hbound : i + ys.length ≤ buf.length) (hlow : (place cap tail len).2 ≤ i)
    (hhigh : i + ys.length ≤ (place cap tail len).2 + BytesRing.recordSize len) :
    Marked cap (splice buf i ys) tail len := by
  intro hpos
  obtain ⟨hmod, _, hskip⟩ := place_spec tail hcap hwriting.short
  have hfree := hwriting.room
  rw [slice_splice_of_disjoint hbound]
  · exact hmarked hpos
  · have hd := window_disjoint (p := tail) (s := 4)
      (w := tail + (place cap tail len).1) (n := BytesRing.recordSize len) (show 0 < cap by omega)
      (by omega)
      (by omega)
    rw [hmod] at hd
    omega

/-! ## §3 Steps -/

section FirstRecord

variable {cap : Nat} {buf : Bytes} {head last : Nat} {record : Bytes} {rest : List Bytes}

/-- The first record of a layout, if it is at its start, ends inside it. -/
theorem Layout.slot_end (h : Layout cap buf head (record :: rest) last) :
    head + BytesRing.recordSize record.length ≤ last := by
  obtain ⟨mid, hstored, hrest⟩ := h
  have hle := hrest.le
  cases hstored <;> omega

/-- The first record of a layout, if it does not fit before the end of the
buffer, is at index 0 behind a marker. -/
theorem Layout.skip (h : Layout cap buf head (record :: rest) last)
    (hs : cap - head % cap < BytesRing.recordSize record.length) :
    Slot cap buf (head + (cap - head % cap)) record ∧
      Layout cap buf (head + (cap - head % cap)) (record :: rest) last := by
  obtain ⟨mid, hstored, hrest⟩ := h
  cases hstored with
  | direct slot => have := slot.fits; omega
  | wrapped room straddles marker slot => exact ⟨slot, _, .direct slot, hrest⟩

/-- Past the first record, if it is at the start of the layout. -/
theorem Layout.tail_of_slot (h : Layout cap buf head (record :: rest) last)
    (hslot : Slot cap buf head record) (hcap : 0 < cap) :
    Layout cap buf (head + BytesRing.recordSize record.length) rest last := by
  obtain ⟨mid, hstored, hrest⟩ := h
  have hlt := Nat.mod_lt head hcap
  cases hstored with
  | direct slot => exact hrest
  | wrapped room straddles marker slot => have := hslot.fits; omega

end FirstRecord

/-- A write in the free part does not change what the consumer knows. -/
theorem ConsumerOk.of_write {cap : Nat} {buf ys : Bytes} {head fin last i w m n : Nat}
    {seen : List Bytes} {pc : ConsumerPc} (hcap : 0 < cap) (hbound : i + ys.length ≤ buf.length)
    (hw : WritesAfter cap fin head i ys.length w m) (hseen : Layout cap buf head seen last)
    (hlast : last ≤ fin) (h : ConsumerOk cap buf head seen n pc) :
    ConsumerOk cap (splice buf i ys) head seen n pc := by
  have hslot : ∀ {record rest}, seen = record :: rest → Slot cap buf head record →
      Slot cap (splice buf i ys) head record := by
    rintro record rest rfl hs
    exact hs.splice hcap hbound le_rfl (le_trans hseen.slot_end hlast) hw
  cases pc with
  | idle => exact h
  | loadTail => exact h
  | readHeader =>
      obtain ⟨record, rest, rfl, hn⟩ := h
      refine ⟨record, rest, rfl, ?_⟩
      rcases hn with hn | ⟨hn, hs⟩
      · exact Or.inl hn
      · exact Or.inr ⟨hn, hslot rfl hs⟩
  | storeSkip =>
      obtain ⟨hn, record, rest, rfl, hstraddles, hs⟩ := h
      have hend := (hseen.skip hstraddles).2.slot_end
      exact ⟨hn, record, rest, rfl, hstraddles,
        hs.splice hcap hbound (by omega) (le_trans hend hlast) hw⟩
  | readPayload len =>
      obtain ⟨hn, record, rest, rfl, hs, hlen⟩ := h
      exact ⟨hn, record, rest, rfl, hslot rfl hs, hlen⟩
  | storeHead len record =>
      obtain ⟨hn, rest, rfl, hs, hlen⟩ := h
      exact ⟨hn, rest, rfl, hslot rfl hs, hlen⟩
  | unreachable => exact h

namespace RingInv

variable {r : BytesRing} {v : RingView} {n : Nat}

theorem setProducerPc (h : RingInv r v n) {pc : ProducerPc}
    (hok : ProducerOk r.capacity r.buf v.tail v.cachedHead pc) : RingInv (r.setProducerPc pc) v n :=
  { h with producer := hok }

theorem setConsumerPc (h : RingInv r v n) {pc : ConsumerPc} {n' : Nat}
    (hok : ConsumerOk r.capacity r.buf v.head v.seen n' pc) : RingInv (r.setConsumerPc pc) v n' :=
  { h with consumer := hok }

/-- The bytes from the tail that a write may use. -/
theorem writesAfter (h : RingInv r v n) {len i k : Nat}
    (hwriting : Writing r.capacity v.tail v.cachedHead len)
    (hlow : (place r.capacity v.tail len).2 ≤ i)
    (hhigh : i + k ≤ (place r.capacity v.tail len).2 + BytesRing.recordSize len) :
    WritesAfter r.capacity v.tail v.head i k (v.tail + (place r.capacity v.tail len).1)
      (BytesRing.recordSize len) := by
  obtain ⟨hmod, _, _⟩ := place_spec v.tail h.capacity_spec.1 hwriting.short
  have h1 := hwriting.room
  have h2 := h.behind
  exact ⟨by omega, by omega, by rw [hmod]; exact hlow, by rw [hmod]; exact hhigh⟩

/-- The producer's next write is inside the buffer and apart from the queue. -/
theorem nextWrite_spec (h : RingInv r v n) {i k : Nat} (hnext : r.nextWrite = some (i, k)) :
    i + k ≤ r.capacity ∧ ∃ w m, WritesAfter r.capacity v.tail v.head i k w m := by
  have hok := h.producer
  have hcap := h.capacity_spec
  rw [BytesRing.nextWrite] at hnext
  cases hpc : r.producer.pc with
  | writeMarker call =>
      rw [hpc] at hok
      simp only [hpc, h.writeIndex_eq, Option.some.injEq, Prod.mk.injEq] at hnext
      obtain ⟨rfl, rfl⟩ := hnext
      obtain ⟨hwriting, hskip⟩ := hok
      have hmark := marker_room (show 0 < r.capacity by omega) hcap.2.1 h.aligned
      have hsize := recordSize_bounds call.len
      have hroom := hwriting.room
      have hbehind := h.behind
      exact ⟨by omega, v.tail, 8, le_rfl, by omega, le_rfl, by omega⟩
  | fillPayload call =>
      rw [hpc] at hok
      simp only [hpc, h.placement_eq, ringHeader, Option.some.injEq, Prod.mk.injEq] at hnext
      obtain ⟨rfl, rfl⟩ := hnext
      obtain ⟨_, hfits, _⟩ := place_spec v.tail hcap.1 hok.1.short
      have hsize := recordSize_bounds call.len
      exact ⟨by omega, _, _, h.writesAfter hok.1 (by omega) (by omega)⟩
  | writeHeader call record =>
      rw [hpc] at hok
      simp only [hpc, h.placement_eq, Option.some.injEq, Prod.mk.injEq] at hnext
      obtain ⟨rfl, rfl⟩ := hnext
      obtain ⟨_, hfits, _⟩ := place_spec v.tail hcap.1 hok.1.short
      have hsize := recordSize_bounds call.len
      exact ⟨by omega, _, _, h.writesAfter hok.1 le_rfl (by omega)⟩
  | idle => simp [hpc] at hnext
  | loadHead call => simp [hpc] at hnext
  | storeTail call record => simp [hpc] at hnext
  | unreachable => simp [hpc] at hnext

/-- A producer's next write, after which it is at `pc`. -/
theorem regionMut (h : RingInv r v n) {ys : Bytes} {i k : Nat} {pc : ProducerPc}
    (hnext : r.nextWrite = some (i, k)) (hlen : ys.length = k)
    (hok : ProducerOk r.capacity (splice r.buf i ys) v.tail v.cachedHead pc) :
    ∃ r', r.regionMut i ys = some r' ∧ RingInv (r'.setProducerPc pc) v n := by
  have hcap : 0 < r.capacity := by have := h.capacity_spec.1; omega
  obtain ⟨hbound, w, m, hw⟩ := h.nextWrite_spec hnext
  subst hlen
  have hbound' : i + ys.length ≤ r.buf.length := by rw [h.length]; exact hbound
  have hord := h.order
  refine ⟨{ r with buf := Bowst.Lib.splice r.buf i ys }, if_pos hbound', ?_⟩
  exact
    { h with
      length := (length_splice hbound').trans h.length
      seen := Layout.splice hcap hbound' hw le_rfl hord.2 h.seen
      unseen := Layout.splice hcap hbound' hw hord.1 le_rfl h.unseen
      producer := hok
      consumer := h.consumer.of_write hcap hbound' hw h.seen hord.2 }

theorem enterWrite (h : RingInv r v n) {call : WriteCall} (hshort : call.len + 8 ≤ r.capacity / 2)
    (hroom : r.looksFull call.len = false) : RingInv (r.enterWrite call) v n := by
  have hwriting : Writing r.capacity v.tail v.cachedHead call.len := by
    refine ⟨hshort, ?_⟩
    have := mt (h.looksFull_iff call.len).mpr (by simp [hroom])
    omega
  unfold BytesRing.enterWrite
  rw [h.placement_eq]
  by_cases hskip : (place r.capacity v.tail call.len).1 > 0
  · rw [if_pos hskip]
    exact h.setProducerPc ⟨hwriting, hskip⟩
  · rw [if_neg hskip]
    exact h.setProducerPc ⟨hwriting, fun hpos => absurd hpos hskip⟩

/-- Calling `write_with`. -/
theorem beginWrite (h : RingInv r v n) (call : WriteCall) :
    RingInv (r.beginWrite call).1 v n ∧
      ∀ out, (r.beginWrite call).2 = some out →
        call.len > r.maxRecord ∧ out = .failed (.tooLarge call.len r.maxRecord) := by
  have hcap := h.capacity_spec.1
  unfold BytesRing.beginWrite
  by_cases hlarge : call.len > r.maxRecord
  · rw [if_pos hlarge]
    exact ⟨h, fun out hout => ⟨hlarge, by cases hout; rfl⟩⟩
  · rw [if_neg hlarge]
    have hshort : call.len + 8 ≤ r.capacity / 2 := by
      unfold BytesRing.maxRecord ringHeader at hlarge
      omega
    cases hfull : r.looksFull call.len with
    | true => exact ⟨h.setProducerPc hshort, nofun⟩
    | false => exact ⟨h.enterWrite hshort hfull, nofun⟩

/-- The record the producer has finished writing, as the consumer will find it. -/
theorem stored_at_tail (h : RingInv r v n) {call : WriteCall} {record : Bytes}
    (hwriting : Writing r.capacity v.tail v.cachedHead call.len)
    (hmarked : Marked r.capacity r.buf v.tail call.len)
    (hfilled : Filled r.capacity r.buf v.tail call record)
    (hheader : slice r.buf (place r.capacity v.tail call.len).2 4 = toLe 4 call.len) :
    Stored r.capacity r.buf v.tail record
      (v.tail + (place r.capacity v.tail call.len).1 + BytesRing.recordSize call.len) := by
  obtain ⟨hfills, hpayload⟩ := hfilled
  have hlen := hfills.length
  obtain ⟨hmod, hfits, hskip⟩ := place_spec v.tail h.capacity_spec.1 hwriting.short
  rw [← hlen] at hmod hfits hskip hpayload hheader hmarked ⊢
  have hshort := hwriting.short
  rw [← hlen] at hshort
  have hslot : Slot r.capacity r.buf (v.tail + (place r.capacity v.tail record.length).1) record :=
    ⟨by rw [hmod]; exact hfits, hshort, by rw [hmod]; exact hheader, by rw [hmod]; exact hpayload⟩
  rcases hskip with hzero | ⟨hskip, hstraddles⟩
  · rw [hzero, Nat.add_zero] at hslot ⊢
    exact .direct hslot
  · have hroom := marker_room (show 0 < r.capacity by omega) h.capacity_spec.2.1 h.aligned
    rw [hskip] at hslot ⊢
    exact .wrapped hroom.2 hstraddles (hmarked (by omega)) hslot

theorem loadHead (h : RingInv r v n) {call : WriteCall} (hpc : r.producer.pc = .loadHead call) :
    RingInv (r.loadHead call).1 { v with cachedHead := v.head } n ∧
      ((r.loadHead call).2 = none ∨
        (r.loadHead call).2 = some (.failed .full) ∧ v.seen ++ v.unseen ≠ []) := by
  have hshort : call.len + 8 ≤ r.capacity / 2 := by
    have := h.producer
    rw [hpc] at this
    exact this
  have hcap := h.capacity_spec
  have hload : RingInv { r with producer := { r.producer with cachedHead := r.head } }
      { v with cachedHead := v.head } n :=
    { h with
      cachedHead := h.head
      behind := le_rfl
      window := le_trans h.window (Nat.add_le_add_right h.behind _)
      producer := by
        show ProducerOk r.capacity r.buf v.tail v.head r.producer.pc
        rw [hpc]
        exact hshort }
  rw [BytesRing.loadHead]
  by_cases hfull : BytesRing.looksFull
      { r with producer := { r.producer with cachedHead := r.head } } call.len = true
  · rw [if_pos hfull]
    refine ⟨hload.setProducerPc (show ProducerOk r.capacity r.buf v.tail v.head .idle from trivial),
      Or.inr ⟨rfl, ?_⟩⟩
    -- An empty ring has room for every record, so this one is not empty.
    intro hempty
    obtain ⟨hseen, hunseen⟩ := List.append_eq_nil_iff.mp hempty
    have h1 : v.head = v.cachedTail := by
      have := h.seen
      rwa [hseen] at this
    have h2 : v.cachedTail = v.tail := by
      have := h.unseen
      rwa [hunseen] at this
    have h3 : v.head + r.capacity <
        v.tail + (place r.capacity v.tail call.len).1 + BytesRing.recordSize call.len :=
      (hload.looksFull_iff call.len).mp hfull
    have h4 := place_le_capacity v.tail hcap.1 hcap.2.1 hshort
    omega
  · rw [if_neg hfull]
    exact ⟨hload.enterWrite hshort (by simpa using hfull), Or.inl rfl⟩

theorem writeMarker (h : RingInv r v n) {call : WriteCall}
    (hpc : r.producer.pc = .writeMarker call) : RingInv (r.writeMarker call) v n := by
  have hok := h.producer
  rw [hpc] at hok
  have hnext : r.nextWrite = some (v.tail % r.capacity, 4) := by
    simp only [BytesRing.nextWrite, hpc, h.writeIndex_eq]
  have hbound : v.tail % r.capacity + (toLe 4 wrapMarker).length ≤ r.buf.length := by
    rw [length_toLe, h.length]
    exact (h.nextWrite_spec hnext).1
  have hmarked : Marked r.capacity (splice r.buf (v.tail % r.capacity) (toLe 4 wrapMarker)) v.tail
      call.len := by
    intro _
    have := slice_splice_self hbound
    rwa [length_toLe] at this
  obtain ⟨r', hr', hinv⟩ := h.regionMut hnext (length_toLe ..)
    (show ProducerOk r.capacity _ v.tail v.cachedHead (.fillPayload call) from ⟨hok.1, hmarked⟩)
  rw [BytesRing.writeMarker, h.writeIndex_eq, hr']
  exact hinv

theorem fillPayload (h : RingInv r v n) {call : WriteCall}
    (hpc : r.producer.pc = .fillPayload call) : RingInv (r.fillPayload call) v n := by
  have hok := h.producer
  rw [hpc] at hok
  obtain ⟨hwriting, hmarked⟩ := hok
  have hcap := h.capacity_spec
  have hmark := marker_room (show 0 < r.capacity by omega) hcap.2.1 h.aligned
  have hsize := recordSize_bounds call.len
  have hord := h.order
  have hbehind := h.behind
  let start := (place r.capacity v.tail call.len).2 + 8
  have hnext : r.nextWrite = some (start, call.len) := by
    simp only [BytesRing.nextWrite, hpc, h.placement_eq, ringHeader, start]
  have hend : start + call.len ≤ r.buf.length := by
    rw [h.length]
    exact (h.nextWrite_spec hnext).1
  have hregion : r.region start call.len = some (slice r.buf start call.len) := if_pos hend
  let record := call.fill (slice r.buf start call.len)
  have hfills : call.Fills record := ⟨_, length_slice hend, rfl⟩
  have hlen := hfills.length
  have hbound : start + record.length ≤ r.buf.length := by rw [hlen]; exact hend
  have hmarked' := hmarked.of_write hcap.1 (by omega) hmark.2 hwriting hbound
    (show _ ≤ start by omega) (by omega)
  have hfilled : Filled r.capacity (splice r.buf start record) v.tail call record := by
    refine ⟨hfills, ?_⟩
    have := slice_splice_self hbound
    rwa [hlen] at this
  obtain ⟨r', hr', hinv⟩ := h.regionMut hnext hlen
    (show ProducerOk r.capacity _ v.tail v.cachedHead (.writeHeader call record) from
      ⟨hwriting, hmarked', hfilled⟩)
  rw [BytesRing.fillPayload, h.placement_eq]
  simp only [show (place r.capacity v.tail call.len).2 + ringHeader = start from rfl, hregion,
    show call.fill (slice r.buf start call.len) = record from rfl, hr']
  exact hinv

theorem writeHeader (h : RingInv r v n) {call : WriteCall} {record : Bytes}
    (hpc : r.producer.pc = .writeHeader call record) :
    RingInv (r.writeHeader call record) v n := by
  have hok := h.producer
  rw [hpc] at hok
  obtain ⟨hwriting, hmarked, hfilled⟩ := hok
  have hcap := h.capacity_spec
  have hmark := marker_room (show 0 < r.capacity by omega) hcap.2.1 h.aligned
  have hsize := recordSize_bounds call.len
  have hshort := hwriting.short
  have hord := h.order
  have hbehind := h.behind
  have hlen : (toLe 4 call.len).length = 4 := length_toLe ..
  have hnext : r.nextWrite = some ((place r.capacity v.tail call.len).2, 4) := by
    simp only [BytesRing.nextWrite, hpc, h.placement_eq]
  have hbound : (place r.capacity v.tail call.len).2 + (toLe 4 call.len).length ≤ r.buf.length := by
    rw [hlen, h.length]
    exact (h.nextWrite_spec hnext).1
  have hmarked' := hmarked.of_write hcap.1 (by omega) hmark.2 hwriting hbound le_rfl (by omega)
  have hfilled' : Filled r.capacity
      (splice r.buf (place r.capacity v.tail call.len).2 (toLe 4 call.len)) v.tail call record := by
    refine ⟨hfilled.1, ?_⟩
    rw [slice_splice_of_disjoint hbound (by omega)]
    exact hfilled.2
  have hheader := slice_splice_self hbound
  rw [hlen] at hheader
  obtain ⟨r', hr', hinv⟩ := h.regionMut hnext hlen
    (show ProducerOk r.capacity _ v.tail v.cachedHead (.storeTail call record) from
      ⟨hwriting, hmarked', hfilled', hheader⟩)
  have hsmall : call.len < 2 ^ 32 := by omega
  rw [BytesRing.writeHeader, h.placement_eq]
  simp only [if_pos hsmall, hr']
  exact hinv

theorem storeTail (h : RingInv r v n) {call : WriteCall} {record : Bytes}
    (hpc : r.producer.pc = .storeTail call record) :
    RingInv (r.storeTail call)
      { v with
        tail := v.tail + (place r.capacity v.tail call.len).1 + BytesRing.recordSize call.len
        unseen := v.unseen ++ [record] } n := by
  have hok := h.producer
  rw [hpc] at hok
  obtain ⟨hwriting, hmarked, hfilled, hheader⟩ := hok
  have hcap := h.capacity_spec
  have hmark := marker_room (show 0 < r.capacity by omega) hcap.2.1 h.aligned
  have hstored := h.stored_at_tail hwriting hmarked hfilled hheader
  have hsize := recordSize_bounds call.len
  have haligned := h.aligned
  obtain ⟨_, _, hskip⟩ := place_spec v.tail hcap.1 hwriting.short
  have htail : (r.producer.tail + r.needed call.len) % usizeModulus =
      (v.tail + (place r.capacity v.tail call.len).1 + BytesRing.recordSize call.len)
        % usizeModulus := by
    rw [h.producerTail, BytesRing.needed, h.placement_eq, Nat.mod_add_mod, Nat.add_assoc]
  rw [BytesRing.storeTail]
  exact
    { h with
      tail := htail
      producerTail := htail
      window := hwriting.room
      aligned := by
        show (v.tail + (place r.capacity v.tail call.len).1 + BytesRing.recordSize call.len) % 8 = 0
        omega
      unseen := h.unseen.append ⟨_, hstored, rfl⟩
      producer := trivial }

/-- One access of the producer: the queue grows by what it has finished writing,
and it gives up only on a ring that holds something. -/
theorem stepProducer (h : RingInv r v n) :
    ∃ v', RingInv r.stepProducer.1 v' n ∧ v'.head = v.head ∧ v'.seen = v.seen ∧
      v'.unseen = v.unseen ++ recordsWritten r.stepProducer.2 ∧
      (r.stepProducer.2 = some (.failed .full) → v.seen ++ v.unseen ≠ []) := by
  cases hpc : r.producer.pc with
  | idle =>
      have heq : r.stepProducer = (r, none) := by simp only [BytesRing.stepProducer, hpc]
      rw [heq]
      exact ⟨v, h, rfl, rfl, by simp, nofun⟩
  | loadHead call =>
      have heq : r.stepProducer = r.loadHead call := by simp only [BytesRing.stepProducer, hpc]
      rw [heq]
      obtain ⟨hinv, hnone | ⟨hfull, hne⟩⟩ := h.loadHead hpc
      · refine ⟨{ v with cachedHead := v.head }, hinv, rfl, rfl, ?_, ?_⟩
        · rw [hnone, recordsWritten_none, List.append_nil]
        · rw [hnone]
          nofun
      · refine ⟨{ v with cachedHead := v.head }, hinv, rfl, rfl, ?_, fun _ => hne⟩
        rw [hfull, recordsWritten_failed, List.append_nil]
  | writeMarker call =>
      have heq : r.stepProducer = (r.writeMarker call, none) := by
        simp only [BytesRing.stepProducer, hpc]
      rw [heq]
      exact ⟨v, h.writeMarker hpc, rfl, rfl, by simp, nofun⟩
  | fillPayload call =>
      have heq : r.stepProducer = (r.fillPayload call, none) := by
        simp only [BytesRing.stepProducer, hpc]
      rw [heq]
      exact ⟨v, h.fillPayload hpc, rfl, rfl, by simp, nofun⟩
  | writeHeader call record =>
      have heq : r.stepProducer = (r.writeHeader call record, none) := by
        simp only [BytesRing.stepProducer, hpc]
      rw [heq]
      exact ⟨v, h.writeHeader hpc, rfl, rfl, by simp, nofun⟩
  | storeTail call record =>
      have heq : r.stepProducer = (r.storeTail call, some (.written record)) := by
        simp only [BytesRing.stepProducer, hpc]
      rw [heq]
      exact ⟨_, h.storeTail hpc, rfl, rfl, by simp, nofun⟩
  | unreachable =>
      have hok := h.producer
      rw [hpc] at hok
      exact absurd hok id

/-- Whether the consumer has used up the records it knows of. -/
theorem consumer_empty_iff (h : RingInv r v n) :
    r.consumer.head = r.consumer.cachedTail ↔ v.head = v.cachedTail := by
  have hcap := h.capacity_spec
  have hmod : (2 : Nat) ^ 31 < usizeModulus := by norm_num [usizeModulus]
  have hord := h.order
  have hbehind := h.behind
  have hwindow := h.window
  rw [h.consumerHead, h.cachedTail]
  exact mod_eq_mod_iff hord.1 (by omega)

/-- Where the positions differ there is a record to read. -/
theorem exists_seen (h : RingInv r v n) (hne : v.head ≠ v.cachedTail) :
    ∃ record rest, v.seen = record :: rest :=
  List.exists_cons_of_ne_nil (h.seen.ne_nil hne)

/-- Calling `read_with`. -/
theorem enterRead (h : RingInv r v 0) : RingInv r.enterRead v 0 := by
  rw [BytesRing.enterRead]
  by_cases hempty : r.consumer.head = r.consumer.cachedTail
  · rw [if_pos hempty]
    exact h.setConsumerPc rfl
  · rw [if_neg hempty]
    obtain ⟨record, rest, hseen⟩ := h.exists_seen (mt h.consumer_empty_iff.mpr hempty)
    exact h.setConsumerPc ⟨record, rest, hseen, Or.inl (Nat.zero_le 1)⟩

/-- The consumer learns of all records there are, and of none only if none are. -/
theorem loadTail (h : RingInv r v n) (hpc : r.consumer.pc = .loadTail) :
    ∃ v', v'.head = v.head ∧ v'.seen = v.seen ++ v.unseen ∧ v'.unseen = [] ∧
      ((r.loadTail).2 = some none ∧ v.seen ++ v.unseen = [] ∧ RingInv (r.loadTail).1 v' 0 ∨
        (r.loadTail).2 = none ∧ RingInv (r.loadTail).1 v' (n + 1)) := by
  have hn : n = 0 := by
    have hok := h.consumer
    rw [hpc] at hok
    exact hok
  subst hn
  have hload : RingInv { r with consumer := { r.consumer with cachedTail := r.tail } }
      { v with cachedTail := v.tail, seen := v.seen ++ v.unseen, unseen := [] } 0 :=
    { h with
      cachedTail := h.tail
      seen := h.seen.append h.unseen
      unseen := rfl
      consumer := by
        show ConsumerOk r.capacity r.buf v.head (v.seen ++ v.unseen) 0 r.consumer.pc
        rw [hpc]
        exact rfl }
  refine ⟨{ v with cachedTail := v.tail, seen := v.seen ++ v.unseen, unseen := [] },
    rfl, rfl, rfl, ?_⟩
  have hiff := hload.consumer_empty_iff
  rw [BytesRing.loadTail]
  by_cases hempty : r.consumer.head = r.tail
  · rw [if_pos hempty]
    have hpos : v.head = v.tail := hiff.mp hempty
    refine Or.inl ⟨rfl, ?_, hload.setConsumerPc rfl⟩
    have hlayout := hload.seen
    cases hqueue : v.seen ++ v.unseen with
    | nil => rfl
    | cons record rest =>
        rw [hqueue] at hlayout
        have hend := hlayout.slot_end
        have hsize := recordSize_bounds record.length
        have htail : v.head + BytesRing.recordSize record.length ≤ v.tail := hend
        omega
  · rw [if_neg hempty]
    obtain ⟨record, rest, hseen⟩ := hload.exists_seen (mt hiff.mpr hempty)
    exact Or.inr ⟨rfl, hload.setConsumerPc ⟨record, rest, hseen, Or.inl le_rfl⟩⟩

/-- A record's length is never the marker's. -/
theorem ofLe_length (h : RingInv r v n) {pos : Nat} {record : Bytes}
    (hslot : Slot r.capacity r.buf pos record) :
    ofLe (toLe 4 record.length) = record.length ∧ record.length ≠ wrapMarker := by
  have hcap := h.capacity_spec
  have hshort := hslot.short
  rw [ofLe_toLe, wrapMarker]
  exact ⟨Nat.mod_eq_of_lt (by omega), by omega⟩

/-- Four bytes at the read position, if something is stored there. -/
theorem region_header (h : RingInv r v n) (hroom : v.head % r.capacity + 8 ≤ r.capacity) :
    r.region r.readIndex 4 = some (slice r.buf (v.head % r.capacity) 4) := by
  rw [BytesRing.region, h.readIndex_eq, if_pos (by rw [h.length]; omega)]

/-- The consumer takes a marker for a marker and a length for a length. -/
theorem readHeader (h : RingInv r v n) (hpc : r.consumer.pc = .readHeader) :
    RingInv r.readHeader v (n + 1) := by
  have hok := h.consumer
  rw [hpc] at hok
  obtain ⟨record, rest, hseen, hn⟩ := hok
  have hlayout := h.seen
  rw [hseen] at hlayout
  obtain ⟨mid, hstored, hrest⟩ := hlayout
  have hsize := recordSize_bounds record.length
  rw [BytesRing.readHeader]
  cases hstored with
  | direct slot =>
      obtain ⟨hlen, hne⟩ := h.ofLe_length slot
      have hfits := slot.fits
      simp only [h.region_header (by omega), slot.header, hlen, if_neg hne]
      exact h.setConsumerPc ⟨by omega, record, rest, hseen, slot, rfl⟩
  | wrapped room straddles marker slot =>
      have hmarker : ofLe (toLe 4 wrapMarker) = wrapMarker := by
        rw [ofLe_toLe]; decide
      simp only [h.region_header room, marker, hmarker, if_true]
      -- A second round of the loop would have the record at the read position.
      have hfirst : n ≤ 1 := by
        rcases hn with hn | ⟨_, hs⟩
        · exact hn
        · have := hs.fits
          omega
      exact h.setConsumerPc ⟨by omega, record, rest, hseen, straddles, slot⟩

/-- Skipping leaves the first record, now at the read position. -/
theorem storeSkip (h : RingInv r v n) (hpc : r.consumer.pc = .storeSkip) :
    RingInv r.storeSkip { v with head := v.head + (r.capacity - v.head % r.capacity) } (n + 1) := by
  have hok := h.consumer
  rw [hpc] at hok
  obtain ⟨hn, record, rest, hseen, hstraddles, hslot⟩ := hok
  have hlayout := h.seen
  rw [hseen] at hlayout
  obtain ⟨_, hskip⟩ := hlayout.skip hstraddles
  have hend := hskip.slot_end
  have hsize := recordSize_bounds record.length
  have hhead : (r.consumer.head + (r.capacity - r.readIndex)) % usizeModulus =
      (v.head + (r.capacity - v.head % r.capacity)) % usizeModulus := by
    rw [h.consumerHead, h.readIndex_eq, Nat.mod_add_mod]
  let head := (r.consumer.head + (r.capacity - r.readIndex)) % usizeModulus
  have hmoved : RingInv
      (BytesRing.setConsumerPc { r with head, consumer := { r.consumer with head } } .readHeader)
      { v with head := v.head + (r.capacity - v.head % r.capacity) } (n + 1) :=
    { h with
      head := hhead
      consumerHead := hhead
      behind := le_trans h.behind (Nat.le_add_right ..)
      seen := by rw [hseen]; exact hskip
      consumer := ⟨record, rest, hseen, Or.inr ⟨by omega, hslot⟩⟩ }
  have hne : ¬ head = r.consumer.cachedTail := by
    refine mt hmoved.consumer_empty_iff.mp ?_
    show ¬ v.head + (r.capacity - v.head % r.capacity) = v.cachedTail
    omega
  rw [BytesRing.storeSkip, BytesRing.enterRead, if_neg hne]
  exact hmoved

theorem readPayload (h : RingInv r v n) {len : Nat} (hpc : r.consumer.pc = .readPayload len) :
    RingInv (r.readPayload len) v (n + 1) := by
  have hok := h.consumer
  rw [hpc] at hok
  obtain ⟨hn, record, rest, hseen, hslot, rfl⟩ := hok
  have hfits := hslot.fits
  have hsize := recordSize_bounds record.length
  have hregion : r.region (r.readIndex + ringHeader) record.length = some record := by
    rw [BytesRing.region, h.readIndex_eq, ringHeader, if_pos (by rw [h.length]; omega),
      hslot.payload]
  rw [BytesRing.readPayload, hregion]
  exact h.setConsumerPc ⟨by omega, rest, hseen, hslot, rfl⟩

/-- Giving back a record takes it off the queue. -/
theorem storeHead (h : RingInv r v n) {len : Nat} {record : Bytes}
    (hpc : r.consumer.pc = .storeHead len record) :
    ∃ rest, v.seen = record :: rest ∧
      RingInv (r.storeHead len)
        { v with head := v.head + BytesRing.recordSize len, seen := rest } 0 := by
  have hok := h.consumer
  rw [hpc] at hok
  obtain ⟨_, rest, hseen, hslot, rfl⟩ := hok
  have hlayout := h.seen
  rw [hseen] at hlayout
  have hcap := h.capacity_spec
  have hhead : (r.consumer.head + BytesRing.recordSize record.length) % usizeModulus =
      (v.head + BytesRing.recordSize record.length) % usizeModulus := by
    rw [h.consumerHead, Nat.mod_add_mod]
  refine ⟨rest, hseen, ?_⟩
  rw [BytesRing.storeHead]
  exact
    { h with
      head := hhead
      consumerHead := hhead
      behind := le_trans h.behind (Nat.le_add_right ..)
      seen := hlayout.tail_of_slot hslot (by omega)
      consumer := rfl }

/-- One access of the consumer: what it returns comes off the front of the
queue, and it returns nothing only if there is nothing. -/
theorem stepConsumer (h : RingInv r v n) (hbusy : r.consumer.pc ≠ .idle) :
    ∃ v', RingInv r.stepConsumer.1 v' (if r.stepConsumer.2.isSome then 0 else n + 1) ∧
      v.seen ++ v.unseen = recordsReturned r.stepConsumer.2 ++ (v'.seen ++ v'.unseen) ∧
      (r.stepConsumer.2 = some none → v.seen ++ v.unseen = []) := by
  cases hpc : r.consumer.pc with
  | idle => exact absurd hpc hbusy
  | loadTail =>
      have heq : r.stepConsumer = r.loadTail := by simp only [BytesRing.stepConsumer, hpc]
      rw [heq]
      obtain ⟨v', _, hseen, hunseen, ⟨hsome, hempty, hinv⟩ | ⟨hnone, hinv⟩⟩ := h.loadTail hpc
      · refine ⟨v', ?_, ?_, fun _ => hempty⟩
        · rw [hsome]; exact hinv
        · rw [hsome, hseen, hunseen, recordsReturned_empty, List.nil_append, List.append_nil]
      · refine ⟨v', ?_, ?_, ?_⟩
        · rw [hnone]; exact hinv
        · rw [hnone, hseen, hunseen, recordsReturned_none, List.nil_append, List.append_nil]
        · rw [hnone]; nofun
  | readHeader =>
      have heq : r.stepConsumer = (r.readHeader, none) := by
        simp only [BytesRing.stepConsumer, hpc]
      rw [heq]
      exact ⟨v, h.readHeader hpc, rfl, nofun⟩
  | storeSkip =>
      have heq : r.stepConsumer = (r.storeSkip, none) := by
        simp only [BytesRing.stepConsumer, hpc]
      rw [heq]
      exact ⟨_, h.storeSkip hpc, rfl, nofun⟩
  | readPayload len =>
      have heq : r.stepConsumer = (r.readPayload len, none) := by
        simp only [BytesRing.stepConsumer, hpc]
      rw [heq]
      exact ⟨v, h.readPayload hpc, rfl, nofun⟩
  | storeHead len record =>
      have heq : r.stepConsumer = (r.storeHead len, some (some record)) := by
        simp only [BytesRing.stepConsumer, hpc]
      rw [heq]
      obtain ⟨rest, hseen, hinv⟩ := h.storeHead hpc
      refine ⟨_, hinv, ?_, nofun⟩
      rw [hseen, recordsReturned_some]
      rfl
  | unreachable =>
      have hok := h.consumer
      rw [hpc] at hok
      exact absurd hok id

/-- A new ring. -/
theorem channel {capacity : Nat} (h : BytesRing.channel capacity = .ok r) :
    RingInv r ⟨0, 0, 0, 0, [], []⟩ 0 := by
  rw [BytesRing.channel] at h
  split_ifs at h with hbad
  obtain ⟨⟨k, hk⟩, hlow, hhigh⟩ := not_or.mp hbad |>.imp not_not.mp not_not.mp
  cases h
  refine
    { power := ⟨k, ?_, ?_, hk⟩
      length := List.length_replicate
      head := (Nat.zero_mod _).symm
      consumerHead := (Nat.zero_mod _).symm
      cachedTail := (Nat.zero_mod _).symm
      tail := (Nat.zero_mod _).symm
      producerTail := (Nat.zero_mod _).symm
      cachedHead := (Nat.zero_mod _).symm
      behind := le_rfl
      window := Nat.zero_le _
      aligned := rfl
      seen := rfl
      unseen := rfl
      producer := trivial
      consumer := rfl }
  · rw [hk, minCapacity, show 64 = 2 ^ 6 from rfl] at hlow
    exact (Nat.pow_le_pow_iff_right (by norm_num)).mp hlow
  · rw [hk] at hhigh
    exact (Nat.pow_le_pow_iff_right (by norm_num)).mp hhigh

end RingInv

/-! ## §4 Runs -/

/-- The invariant of a run: what was written and not returned is the queue. -/
def RingRun.Inv (s : RingRun) : Prop :=
  ∃ v, RingInv s.ring v s.readSteps ∧ s.written = s.returned ++ (v.seen ++ v.unseen)

namespace RingRun

theorem start_inv {capacity : Nat} {r : BytesRing} (h : BytesRing.channel capacity = .ok r) :
    (RingRun.start r).Inv :=
  ⟨_, RingInv.channel h, rfl⟩

theorem step_inv {s : RingRun} (h : s.Inv) (action : RingAction) : (s.step action).Inv := by
  obtain ⟨v, hinv, hwritten⟩ := h
  cases action with
  | write call =>
      cases hpc : s.ring.producer.pc with
      | idle =>
          simp only [RingRun.step, hpc]
          obtain ⟨hbegin, hout⟩ := hinv.beginWrite call
          have hnone : recordsWritten (s.ring.beginWrite call).2 = [] := by
            cases hres : (s.ring.beginWrite call).2 with
            | none => rfl
            | some out => rw [(hout out hres).2]; rfl
          refine ⟨v, hbegin, ?_⟩
          rw [afterWrite, hnone, List.append_nil]
          exact hwritten
      | _ =>
          simp only [RingRun.step, hpc]
          exact ⟨v, hinv, hwritten⟩
  | producer =>
      obtain ⟨v', hinv', _, hseen, hunseen, _⟩ := hinv.stepProducer
      refine ⟨v', hinv', ?_⟩
      show s.written ++ recordsWritten s.ring.stepProducer.2 = s.returned ++ (v'.seen ++ v'.unseen)
      rw [hwritten, hseen, hunseen, List.append_assoc, List.append_assoc]
  | read =>
      cases hpc : s.ring.consumer.pc with
      | idle =>
          simp only [RingRun.step, hpc]
          have hzero : s.readSteps = 0 := by
            have hok := hinv.consumer
            rw [hpc] at hok
            exact hok
          rw [hzero] at hinv
          exact ⟨v, hinv.enterRead, hwritten⟩
      | _ =>
          simp only [RingRun.step, hpc]
          exact ⟨v, hinv, hwritten⟩
  | consumer =>
      have hstep : s.ring.consumer.pc ≠ .idle → (s.afterRead s.ring.stepConsumer).Inv := by
        intro hbusy
        obtain ⟨v', hinv', hqueue, _⟩ := hinv.stepConsumer hbusy
        refine ⟨v', hinv', ?_⟩
        show s.written = s.returned ++ recordsReturned s.ring.stepConsumer.2 ++ (v'.seen ++ v'.unseen)
        rw [hwritten, hqueue, List.append_assoc]
      cases hpc : s.ring.consumer.pc with
      | idle =>
          simp only [RingRun.step, hpc]
          exact ⟨v, hinv, hwritten⟩
      | _ =>
          simp only [RingRun.step, hpc]
          exact hstep (by rw [hpc]; nofun)

/-- Every interleaving keeps the invariant. -/
theorem foldl_step_inv (actions : List RingAction) :
    ∀ {s : RingRun}, s.Inv → (actions.foldl RingRun.step s).Inv := by
  induction actions with
  | nil => exact id
  | cons action rest ih => exact fun h => ih (step_inv h action)

/-- What the consumer has made of the header it read: `record` is the oldest one
not yet returned. A marker was one, with the record at the start of the buffer;
a length was that record's. -/
def HeaderTaken (r : BytesRing) (record : Bytes) : ConsumerPc → Prop
  | .storeSkip =>
      r.capacity - r.readIndex < BytesRing.recordSize record.length ∧
        r.region 0 4 = some (toLe 4 record.length) ∧
        r.region ringHeader record.length = some record
  | .readPayload len =>
      len = record.length ∧ r.region (r.readIndex + ringHeader) len = some record
  | .storeHead len read => len = record.length ∧ read = record
  | _ => True

/-- The bytes between the shared head and tail: published and not released. -/
def Published (r : BytesRing) (index : Nat) : Prop :=
  ∃ k < wrappingSub usizeModulus r.tail r.head, index = (r.head + k) % r.capacity

/-- The ring as a queue of records, at one moment of an interleaving. -/
structure IsFifo (s : RingRun) : Prop where
  /-- Records come out as they went in. -/
  inOrder : s.returned <+: s.written
  /-- A read finds nothing only when everything has been returned. -/
  emptyRead : s.ring.stepConsumer.2 = some none → s.returned = s.written
  /-- What is published is what `fill` left in the slice. -/
  filled : ∀ call record, s.ring.producer.pc = .storeTail call record → call.Fills record
  /-- A push publishes its bytes. -/
  pushed : ∀ bytes record, s.ring.producer.pc = .storeTail (.push bytes) record → record = bytes
  producerInBounds : s.ring.producer.pc ≠ .unreachable
  consumerInBounds : s.ring.consumer.pc ≠ .unreachable
  /-- The producer writes inside the buffer, and no published byte. -/
  writesFree : ∀ start len, s.ring.nextWrite = some (start, len) →
    start + len ≤ s.ring.capacity ∧
      ∀ index, Published s.ring index → index < start ∨ start + len ≤ index
  /-- A marker is taken for a marker and a length for a length. -/
  headerTaken : s.ring.consumer.pc ∉ [.idle, .loadTail] →
    ∃ record, s.returned ++ [record] <+: s.written ∧ HeaderTaken s.ring record s.ring.consumer.pc
  /-- A read takes at most six accesses. -/
  readEnds : s.readSteps ≤ 5 ∧
    (s.ring.consumer.pc ≠ .idle → s.readSteps = 5 → s.ring.stepConsumer.2.isSome)
  /-- A call is turned away at once only if its record is too large. -/
  tooLarge : ∀ call out, (s.ring.beginWrite call).2 = some out →
    call.len > s.ring.maxRecord ∧ out = .failed (.tooLarge call.len s.ring.maxRecord)
  /-- The ring is full only for a consumer that has not released everything. -/
  full : s.ring.stepProducer.2 = some (.failed .full) → s.returned ≠ s.written

theorem published_iff {r : BytesRing} {v : RingView} {n : Nat} (h : RingInv r v n) (index : Nat) :
    Published r index ↔ ∃ p, v.head ≤ p ∧ p < v.tail ∧ index = p % r.capacity := by
  have hcap := h.capacity_spec
  have hmod : (2 : Nat) ^ 31 < usizeModulus := by norm_num [usizeModulus]
  have hord := h.order
  have hbehind := h.behind
  have hwindow := h.window
  rw [Published, h.tail, h.head, wrappingSub_mod (by omega) (by omega)]
  have hindex : ∀ k, (v.head % usizeModulus + k) % r.capacity = (v.head + k) % r.capacity := by
    intro k
    rw [Nat.add_mod, h.mod_mod_capacity, ← Nat.add_mod]
  constructor
  · rintro ⟨k, hk, rfl⟩
    exact ⟨v.head + k, by omega, by omega, hindex k⟩
  · rintro ⟨p, hlow, hhigh, rfl⟩
    exact ⟨p - v.head, by omega, by rw [hindex, Nat.add_sub_cancel' hlow]⟩

theorem nextWrite_free {r : BytesRing} {v : RingView} {n : Nat} (h : RingInv r v n)
    {start len index : Nat} (hnext : r.nextWrite = some (start, len)) (hpub : Published r index) :
    index < start ∨ start + len ≤ index := by
  obtain ⟨_, w, m, hw⟩ := h.nextWrite_spec hnext
  obtain ⟨p, hlow, hhigh, rfl⟩ := (published_iff h index).mp hpub
  have hcap := h.capacity_spec
  have hd := hw.disjoint (show 0 < r.capacity by omega) hlow (show p + 1 ≤ v.tail by omega)
    (show 0 + 1 ≤ 1 by omega)
  omega

/-- The record at a position, read back. -/
theorem slot_regions {r : BytesRing} {v : RingView} {n pos : Nat} {record : Bytes}
    (h : RingInv r v n) (hslot : Slot r.capacity r.buf pos record) :
    r.region (pos % r.capacity) 4 = some (toLe 4 record.length) ∧
      r.region (pos % r.capacity + ringHeader) record.length = some record := by
  have hfits := hslot.fits
  have hsize := recordSize_bounds record.length
  rw [BytesRing.region, BytesRing.region, ringHeader, h.length, if_pos (by omega),
    if_pos (by omega), hslot.header, hslot.payload]
  exact ⟨rfl, rfl⟩

theorem headerTaken_of_inv {r : BytesRing} {v : RingView} {n : Nat} (h : RingInv r v n)
    (hpc : r.consumer.pc ∉ [.idle, .loadTail]) :
    ∃ record rest, v.seen = record :: rest ∧ HeaderTaken r record r.consumer.pc := by
  have hok := h.consumer
  cases hstate : r.consumer.pc with
  | idle => simp [hstate] at hpc
  | loadTail => simp [hstate] at hpc
  | readHeader =>
      rw [hstate] at hok
      obtain ⟨record, rest, hseen, _⟩ := hok
      exact ⟨record, rest, hseen, trivial⟩
  | storeSkip =>
      rw [hstate] at hok
      obtain ⟨_, record, rest, hseen, hstraddles, hslot⟩ := hok
      have hregions := slot_regions h hslot
      have hcap := h.capacity_spec
      rw [mod_add_to_end (by omega), Nat.zero_add] at hregions
      exact ⟨record, rest, hseen, by rw [h.readIndex_eq]; exact hstraddles, hregions⟩
  | readPayload len =>
      rw [hstate] at hok
      obtain ⟨_, record, rest, hseen, hslot, rfl⟩ := hok
      exact ⟨record, rest, hseen, rfl, by rw [h.readIndex_eq]; exact (slot_regions h hslot).2⟩
  | storeHead len record =>
      rw [hstate] at hok
      obtain ⟨_, rest, hseen, _, hlen⟩ := hok
      exact ⟨record, rest, hseen, hlen, rfl⟩
  | unreachable =>
      rw [hstate] at hok
      exact absurd hok id

theorem readSteps_le {r : BytesRing} {v : RingView} {n : Nat} (h : RingInv r v n) : n ≤ 5 := by
  have hok := h.consumer
  cases hstate : r.consumer.pc <;> rw [hstate] at hok
  case idle | loadTail => exact le_trans (le_of_eq hok) (Nat.zero_le 5)
  case readHeader =>
      obtain ⟨_, _, _, hn | ⟨hn, _⟩⟩ := hok <;> omega
  case storeSkip | readPayload | storeHead => exact le_trans hok.1 (by omega)
  case unreachable => exact absurd hok id

theorem Inv.isFifo {s : RingRun} (h : s.Inv) : s.IsFifo := by
  obtain ⟨v, hinv, hwritten⟩ := h
  have hfilled : ∀ call record, s.ring.producer.pc = .storeTail call record →
      call.Fills record := by
    intro call record hpc
    have hok := hinv.producer
    rw [hpc] at hok
    exact hok.2.2.1.1
  refine
    { inOrder := ⟨v.seen ++ v.unseen, hwritten.symm⟩
      emptyRead := ?_
      filled := hfilled
      pushed := fun bytes record hpc => (hfilled _ record hpc).push
      producerInBounds := ?_
      consumerInBounds := ?_
      writesFree := fun start len hnext =>
        ⟨(hinv.nextWrite_spec hnext).1, fun _ hpub => nextWrite_free hinv hnext hpub⟩
      headerTaken := ?_
      readEnds := ⟨readSteps_le hinv, ?_⟩
      tooLarge := fun call => (hinv.beginWrite call).2
      full := ?_ }
  · intro hempty
    have hbusy : s.ring.consumer.pc ≠ .idle := by
      intro hidle
      simp [BytesRing.stepConsumer, hidle] at hempty
    obtain ⟨_, _, _, hnone⟩ := hinv.stepConsumer hbusy
    rw [hwritten, hnone hempty, List.append_nil]
  · intro hpc
    have hok := hinv.producer
    rw [hpc] at hok
    exact hok
  · intro hpc
    have hok := hinv.consumer
    rw [hpc] at hok
    exact hok
  · intro hpc
    obtain ⟨record, rest, hseen, htaken⟩ := headerTaken_of_inv hinv hpc
    refine ⟨record, ⟨rest ++ v.unseen, ?_⟩, htaken⟩
    rw [hwritten, hseen, List.append_assoc]
    rfl
  · intro hbusy hfive
    by_contra hnone
    obtain ⟨v', hinv', _⟩ := hinv.stepConsumer hbusy
    rw [if_neg hnone, hfive] at hinv'
    exact absurd (readSteps_le hinv') (by omega)
  · intro hfull heq
    obtain ⟨_, _, _, _, _, hqueue⟩ := hinv.stepProducer
    rw [hwritten] at heq
    exact hqueue hfull (List.self_eq_append_right.mp heq)

theorem enterWrite_call (r : BytesRing) (call : WriteCall) :
    (r.enterWrite call).producer.pc.call? = some call := by
  rw [BytesRing.enterWrite]
  split_ifs <;> rfl

/-- A call that `write_with` begins is in progress, unless it is turned away. -/
theorem beginWrite_call (r : BytesRing) (call : WriteCall) :
    (r.beginWrite call).2 = none ∧ (r.beginWrite call).1.producer.pc.call? = some call ∨
      ∃ err, r.beginWrite call = (r, some (.failed err)) := by
  rw [BytesRing.beginWrite]
  by_cases hlarge : call.len > r.maxRecord
  · rw [if_pos hlarge]
    exact Or.inr ⟨_, rfl⟩
  · rw [if_neg hlarge]
    by_cases hfull : r.looksFull call.len = true
    · rw [if_pos hfull]
      exact Or.inl ⟨rfl, rfl⟩
    · rw [if_neg hfull]
      exact Or.inl ⟨rfl, enterWrite_call r call⟩

/-- A write either happens or ends the thread. -/
theorem writeMarker_call (r : BytesRing) (call : WriteCall) :
    (r.writeMarker call).producer.pc = .unreachable ∨
      (r.writeMarker call).producer.pc.call? = some call := by
  rw [BytesRing.writeMarker]
  split
  · exact Or.inr rfl
  · exact Or.inl rfl

theorem fillPayload_call (r : BytesRing) (call : WriteCall) :
    (r.fillPayload call).producer.pc = .unreachable ∨
      (r.fillPayload call).producer.pc.call? = some call := by
  rw [BytesRing.fillPayload]
  split
  · split
    · exact Or.inr rfl
    · exact Or.inl rfl
  · exact Or.inl rfl

theorem writeHeader_call (r : BytesRing) (call : WriteCall) (record : Bytes) :
    (r.writeHeader call record).producer.pc = .unreachable ∨
      (r.writeHeader call record).producer.pc.call? = some call := by
  rw [BytesRing.writeHeader]
  split
  · exact Or.inr rfl
  · exact Or.inl rfl

/-- A producer's access either leaves its call in progress or ends it; it has
then written what the call fills in, or nothing. -/
theorem stepProducer_call {s : RingRun} (h : s.Inv) :
    s.ring.stepProducer.2 = none ∧
        s.ring.stepProducer.1.producer.pc.call? = s.ring.producer.pc.call? ∨
      s.ring.stepProducer.1.producer.pc = .idle ∧
        ((∃ err, s.ring.stepProducer.2 = some (.failed err)) ∨
          ∃ call record, s.ring.producer.pc.call? = some call ∧ call.Fills record ∧
            s.ring.stepProducer.2 = some (.written record)) := by
  have hbounds : s.ring.stepProducer.1.producer.pc ≠ .unreachable :=
    (step_inv h .producer).isFifo.producerInBounds
  cases hpc : s.ring.producer.pc with
  | idle =>
      simp only [BytesRing.stepProducer, hpc]
      exact Or.inl ⟨trivial, trivial⟩
  | loadHead call =>
      simp only [BytesRing.stepProducer, hpc]
      rw [BytesRing.loadHead]
      split_ifs
      · exact Or.inr ⟨rfl, Or.inl ⟨_, rfl⟩⟩
      · exact Or.inl ⟨rfl, enterWrite_call _ call⟩
  | writeMarker call =>
      simp only [BytesRing.stepProducer, hpc] at hbounds ⊢
      exact Or.inl ⟨trivial, (writeMarker_call s.ring call).resolve_left hbounds⟩
  | fillPayload call =>
      simp only [BytesRing.stepProducer, hpc] at hbounds ⊢
      exact Or.inl ⟨trivial, (fillPayload_call s.ring call).resolve_left hbounds⟩
  | writeHeader call record =>
      simp only [BytesRing.stepProducer, hpc] at hbounds ⊢
      exact Or.inl ⟨trivial, (writeHeader_call s.ring call record).resolve_left hbounds⟩
  | storeTail call record =>
      have hfills := h.isFifo.filled call record hpc
      simp only [BytesRing.stepProducer, hpc]
      exact Or.inr ⟨rfl, Or.inr ⟨call, record, rfl, hfills, rfl⟩⟩
  | unreachable => exact absurd hpc h.isFifo.producerInBounds

theorem enterRead_producer (r : BytesRing) : r.enterRead.producer = r.producer := by
  rw [BytesRing.enterRead]
  split_ifs <;> rfl

/-- The consumer's accesses leave the producer's fields alone. -/
theorem stepConsumer_producer (r : BytesRing) : r.stepConsumer.1.producer = r.producer := by
  cases hpc : r.consumer.pc with
  | idle => simp only [BytesRing.stepConsumer, hpc]
  | loadTail =>
      simp only [BytesRing.stepConsumer, hpc]
      rw [BytesRing.loadTail]
      split_ifs <;> rfl
  | readHeader =>
      simp only [BytesRing.stepConsumer, hpc]
      rw [BytesRing.readHeader]
      split
      · split_ifs <;> rfl
      · rfl
  | storeSkip =>
      simp only [BytesRing.stepConsumer, hpc]
      rw [BytesRing.storeSkip, enterRead_producer]
  | readPayload len =>
      simp only [BytesRing.stepConsumer, hpc]
      rw [BytesRing.readPayload]
      split <;> rfl
  | storeHead len record => simp only [BytesRing.stepConsumer, hpc, BytesRing.storeHead]
  | unreachable => simp only [BytesRing.stepConsumer, hpc]

theorem read_frame (s : RingRun) :
    (s.step .read).ring.producer = s.ring.producer ∧ (s.step .read).written = s.written := by
  cases hpc : s.ring.consumer.pc with
  | idle =>
      simp only [RingRun.step, hpc]
      exact ⟨enterRead_producer _, trivial⟩
  | _ => simp only [RingRun.step, hpc, and_self]

theorem consumer_frame (s : RingRun) :
    (s.step .consumer).ring.producer = s.ring.producer ∧
      (s.step .consumer).written = s.written := by
  cases hpc : s.ring.consumer.pc with
  | idle => simp only [RingRun.step, hpc, and_self]
  | _ =>
      simp only [RingRun.step, hpc]
      exact ⟨stepConsumer_producer _, rfl⟩

end RingRun

/-- Under every interleaving of one producer and one consumer, wherever the
positions wrap, the ring is a queue of records. -/
theorem bytes_ring_fifo (capacity : Nat) (r : BytesRing) (h : BytesRing.channel capacity = .ok r)
    (actions : List RingAction) :
    (actions.foldl RingRun.step (RingRun.start r)).IsFifo :=
  (RingRun.foldl_step_inv actions (RingRun.start_inv h)).isFifo

/-- Pushing a record and reading it. -/
def pushAndRead (bytes : Bytes) : List RingAction :=
  .write (.push bytes) :: List.replicate 5 .producer ++ .read :: List.replicate 6 .consumer

/-- A ring of 64 bytes with the write position 8 bytes before the end takes a
record behind a marker. -/
theorem bytes_ring_fifo_behind_marker :
    BytesRing.channel 64 = .ok (.empty 64) ∧
      let records : List Bytes := [List.replicate 16 1, List.replicate 24 2, [3, 4]]
      let s := (records.flatMap pushAndRead).foldl RingRun.step (RingRun.start (.empty 64))
      s.returned = records ∧ s.ring.head = 80 ∧ s.IsFifo := by
  refine ⟨rfl, ?_, ?_, bytes_ring_fifo 64 (.empty 64) rfl _⟩
  · decide +kernel
  · decide +kernel

end Bowst.Core
