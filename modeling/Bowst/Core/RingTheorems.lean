/-
Bowst.Core.RingTheorems — the ring of values is a bounded queue.

Positions are followed without their wrap-around: as many values as were pushed and
popped so far. A slot tells the round it was last published in by its sequence
number, which is why the consumer can take it from the slot alone; the producer goes
by the last head it saw, which is never ahead of the consumer.

  §1 Inv   — the invariant of a ring, with what each side knows at each point of its
             call.
  §2 Steps — every access keeps it.
  §3 Runs  — every interleaving.
-/
import Bowst.Core.Ring

namespace Bowst.Core

open Bowst.Lib

namespace Ring

variable {α : Type}

/-! ## §1 Inv -/

def seqAt (r : Ring α) (i : Nat) : Option Nat := r.slots[i]?.map Slot.seq

def valueAt (r : Ring α) (i : Nat) : Option α := r.slots[i]?.bind Slot.value

/-- What the producer knows: room in front of the head it saw, and its value in the
slot it is about to publish. -/
def ProducerOk (r : Ring α) (cap : Nat) (pushed : List α) (seen : Nat) : ProducerPc α → Prop
  | .idle | .loadHead _ => True
  | .writeValue _ => pushed.length < seen + cap
  | .storeSeq value => pushed.length < seen + cap ∧
      r.valueAt (pushed.length % cap) = some value
  | .unreachable => False

/-- What the consumer knows: the next value is there, and then which one it is. -/
def ConsumerOk (pushed popped : List α) : ConsumerPc α → Prop
  | .idle | .loadSeq => True
  | .readValue => popped.length < pushed.length
  | .storeHead value => popped ++ [value] <+: pushed
  | .unreachable | .uninit => False

/-- The invariant of a ring of `cap` slots behind which so many values were pushed and popped, the
producer having seen the head at `seen`. -/
structure Inv (r : Ring α) (cap : Nat) (pushed popped : List α) (seen : Nat) : Prop where
  capacity : r.capacity = cap
  power : ∃ k, 1 ≤ k ∧ k < 64 ∧ cap = 2 ^ k
  order : popped <+: pushed
  producerPosition : r.producer.position = pushed.length % usizeModulus
  cachedHead : r.producer.cachedHead = seen % usizeModulus
  consumerPosition : r.consumer.position = popped.length % usizeModulus
  head : r.head = popped.length % usizeModulus
  behind : seen ≤ popped.length
  window : pushed.length ≤ seen + cap
  /-- The last position published in each slot. -/
  seqs : ∀ p, p < pushed.length → pushed.length ≤ p + cap →
    r.seqAt (p % cap) = some ((p + 1) % usizeModulus)
  /-- Slots of the first round not published yet. -/
  fresh : ∀ i, pushed.length ≤ i → i < cap →
    r.seqAt i = some ((i + usizeModulus - 1) % usizeModulus)
  /-- Values that were not popped are still there. -/
  values : ∀ p, popped.length ≤ p → p < pushed.length →
    r.valueAt (p % cap) = pushed[p]?
  producer : r.ProducerOk cap pushed seen r.producer.pc
  consumer : ConsumerOk pushed popped r.consumer.pc

theorem capacity_setSlot (r : Ring α) (i : Nat) (slot : Slot α) :
    (r.setSlot i slot).capacity = r.capacity := by
  simp [setSlot, capacity]

theorem seqAt_setSlot {r : Ring α} {i j : Nat} {old slot : Slot α} (h : r.slots[i]? = some old) :
    (r.setSlot i slot).seqAt j = if j = i then some slot.seq else r.seqAt j := by
  have hlt := (List.getElem?_eq_some_iff.mp h).1
  by_cases hj : j = i
  · subst hj
    simp [seqAt, setSlot, hlt]
  · simp [seqAt, setSlot, hj, Ne.symm hj]

theorem valueAt_setSlot {r : Ring α} {i j : Nat} {old slot : Slot α} (h : r.slots[i]? = some old) :
    (r.setSlot i slot).valueAt j = if j = i then slot.value else r.valueAt j := by
  have hlt := (List.getElem?_eq_some_iff.mp h).1
  by_cases hj : j = i
  · subst hj
    simp [valueAt, setSlot, hlt]
  · simp [valueAt, setSlot, hj, Ne.symm hj]

/-- Positions less than a round apart are in different slots. -/
theorem slot_ne {cap p q : Nat} (hlt : p < q) (hnear : q < p + cap) : p % cap ≠ q % cap := by
  intro h
  have hdvd : cap ∣ q - p := (Nat.modEq_iff_dvd' hlt.le).mp h
  have hle := Nat.le_of_dvd (by omega) hdvd
  omega

theorem usizeModulus_large : 2 ^ 63 < usizeModulus := by
  norm_num [usizeModulus]

namespace Inv

variable {r : Ring α} {cap : Nat} {pushed popped : List α} {seen : Nat}

theorem capacity_spec (h : Inv r cap pushed popped seen) :
    2 ≤ cap ∧ cap ≤ 2 ^ 63 ∧ cap ∣ usizeModulus := by
  obtain ⟨k, h1, h2, hk⟩ := h.power
  refine ⟨?_, ?_, ?_⟩
  · rw [hk]
    exact Nat.le_self_pow (by omega) 2
  · rw [hk]
    exact Nat.pow_le_pow_right (by norm_num) (by omega)
  · rw [hk, usizeModulus]
    exact Nat.pow_dvd_pow 2 (by omega)

theorem length_le (h : Inv r cap pushed popped seen) : popped.length ≤ pushed.length := h.order.length_le

theorem producer_index (h : Inv r cap pushed popped seen) :
    r.index r.producer.position = pushed.length % cap := by
  rw [index, h.capacity, h.producerPosition, Nat.mod_mod_of_dvd _ h.capacity_spec.2.2]

theorem consumer_index (h : Inv r cap pushed popped seen) :
    r.index r.consumer.position = popped.length % cap := by
  rw [index, h.capacity, h.consumerPosition, Nat.mod_mod_of_dvd _ h.capacity_spec.2.2]

theorem nextPosition_mod (n : Nat) : nextPosition (n % usizeModulus) = (n + 1) % usizeModulus := by
  rw [nextPosition, Nat.mod_add_mod]

theorem slot_exists (h : Inv r cap pushed popped seen) (p : Nat) :
    ∃ slot, r.slots[p % cap]? = some slot := by
  have hcap := h.capacity_spec.1
  have hlt : p % cap < r.slots.length := by
    rw [show r.slots.length = cap from h.capacity]
    exact Nat.mod_lt p (by omega)
  exact ⟨_, List.getElem?_eq_getElem hlt⟩

/-- The cached head makes the ring look full exactly if it is a round behind. -/
theorem looksFull_iff (h : Inv r cap pushed popped seen) :
    r.looksFull = true ↔ pushed.length = seen + cap := by
  have hcap := h.capacity_spec
  have hmod := usizeModulus_large
  have h1 := h.behind
  have h2 := h.window
  have h3 := h.length_le
  rw [looksFull, decide_eq_true_iff, h.capacity, h.producerPosition, h.cachedHead,
    wrappingSub_mod (by omega) (by omega)]
  omega

/-- The slot at the read position is published exactly if a value waits. -/
theorem published_eq (h : Inv r cap pushed popped seen) :
    r.published = some (decide (popped.length < pushed.length)) := by
  have hcap := h.capacity_spec
  have hmod := usizeModulus_large
  have h1 := h.behind
  have h2 := h.window
  have h3 := h.length_le
  obtain ⟨seq, hseq, hiff⟩ : ∃ seq, r.seqAt (popped.length % cap) = some seq ∧
      (seq = (popped.length + 1) % usizeModulus ↔ popped.length < pushed.length) := by
    rcases Nat.lt_or_ge popped.length pushed.length with hlt | hge
    · exact ⟨_, h.seqs _ hlt (by omega), by simp [hlt]⟩
    · have heq : popped.length = pushed.length := by omega
      rcases Nat.lt_or_ge popped.length cap with hfirst | hlater
      · -- Nothing was ever published in the slot.
        have hseq := h.fresh _ heq.ge hfirst
        rw [← Nat.mod_eq_of_lt hfirst] at hseq
        refine ⟨_, hseq, ?_⟩
        rw [Nat.mod_eq_of_lt hfirst, eq_comm, mod_eq_mod_iff (by omega) (by omega)]
        omega
      · -- The slot tells the round before.
        have hseq := h.seqs (popped.length - cap) (by omega) (by omega)
        rw [← Nat.mod_eq_sub_mod hlater] at hseq
        refine ⟨_, hseq, ?_⟩
        rw [mod_eq_mod_iff (by omega) (by omega)]
        omega
  obtain ⟨slot, hslot⟩ := h.slot_exists popped.length
  have hslotSeq : slot.seq = seq := by
    rw [seqAt, hslot] at hseq
    exact Option.some.inj hseq
  rw [published, h.consumer_index, hslot, h.consumerPosition, nextPosition_mod, Option.map_some,
    hslotSeq]
  simp [hiff]

/-- A new ring. -/
theorem channel {capacity : Nat} (husize : capacity < usizeModulus)
    (h : Ring.channel capacity = .ok r) : Inv r capacity [] [] 0 := by
  rw [Ring.channel] at h
  split_ifs at h with hbad
  obtain ⟨htwo, hpower⟩ := not_or.mp hbad
  obtain ⟨k, hk⟩ := not_not.mp hpower
  have hcapacity : (empty capacity : Ring α).capacity = capacity := by simp [Ring.capacity, empty]
  cases h
  refine
    { capacity := hcapacity
      power := ⟨k, ?_, ?_, hk⟩
      order := List.nil_prefix
      producerPosition := (Nat.zero_mod _).symm
      cachedHead := (Nat.zero_mod _).symm
      consumerPosition := (Nat.zero_mod _).symm
      head := (Nat.zero_mod _).symm
      behind := le_rfl
      window := Nat.zero_le _
      seqs := fun p hp => absurd hp (Nat.not_lt_zero p)
      fresh := ?_
      values := fun p _ hp => absurd hp (Nat.not_lt_zero p)
      producer := trivial
      consumer := trivial }
  · rcases Nat.eq_zero_or_pos k with rfl | hpos
    · omega
    · exact hpos
  · rw [hk, usizeModulus] at husize
    exact (Nat.pow_lt_pow_iff_right (by norm_num)).mp husize
  · intro i _ hi
    simp [seqAt, empty, wrappingSub, hi]

/-! ## §2 Steps -/

theorem setProducerPc (h : Inv r cap pushed popped seen) {pc : ProducerPc α}
    (hpc : r.ProducerOk cap pushed seen pc) : Inv (r.setProducerPc pc) cap pushed popped seen :=
  { h with producer := by cases pc <;> exact hpc }

theorem setConsumerPc (h : Inv r cap pushed popped seen) {pc : ConsumerPc α}
    (hpc : ConsumerOk pushed popped pc) : Inv (r.setConsumerPc pc) cap pushed popped seen :=
  { h with
    producer := by
      have hproducer := h.producer
      show Ring.ProducerOk (r.setConsumerPc pc) cap pushed seen r.producer.pc
      cases hpc' : r.producer.pc <;> rw [hpc'] at hproducer <;> exact hproducer
    consumer := hpc }

/-- Room as far as the cached head tells. -/
theorem room (h : Inv r cap pushed popped seen) (hfull : ¬ r.looksFull = true) :
    pushed.length < seen + cap := by
  have hwindow := h.window
  rw [h.looksFull_iff] at hfull
  omega

theorem beginPush (h : Inv r cap pushed popped seen) (value : α) :
    Inv (r.beginPush value) cap pushed popped seen := by
  unfold Ring.beginPush
  by_cases hfull : r.looksFull = true
  · rw [if_pos hfull]
    exact h.setProducerPc trivial
  · rw [if_neg hfull]
    exact h.setProducerPc (h.room hfull)

/-- The producer looks at the head: full is exact at this moment. -/
theorem loadHead (h : Inv r cap pushed popped seen) (value : α) :
    Inv (r.loadHead value).1 cap pushed popped popped.length ∧
      ((r.loadHead value).2 = some (.full value) ∧ pushed.length = popped.length + cap ∨
        (r.loadHead value).2 = none ∧ pushed.length ≠ popped.length + cap) := by
  have hwindow := h.window
  have hbehind := h.behind
  have hlooked : Inv { r with producer := ⟨r.producer.position, r.head, .idle⟩ } cap pushed popped
      popped.length :=
    { h with cachedHead := h.head, behind := le_rfl, window := by omega, producer := trivial }
  unfold Ring.loadHead
  have hsame : ({ r with producer := { r.producer with cachedHead := r.head } } : Ring α).looksFull =
      ({ r with producer := ⟨r.producer.position, r.head, .idle⟩ } : Ring α).looksFull := rfl
  dsimp only
  rw [hsame]
  by_cases hfull : ({ r with producer := ⟨r.producer.position, r.head, .idle⟩ } : Ring α).looksFull = true
  · rw [if_pos hfull]
    exact ⟨hlooked.setProducerPc trivial, .inl ⟨rfl, hlooked.looksFull_iff.mp hfull⟩⟩
  · rw [if_neg hfull]
    exact ⟨hlooked.setProducerPc (hlooked.room hfull),
      .inr ⟨rfl, fun heq => hfull (hlooked.looksFull_iff.mpr heq)⟩⟩

/-- The slot at the write position holds nothing that waits: a write there is seen by
nobody. -/
theorem writeValue (h : Inv r cap pushed popped seen) {value : α}
    (hpc : r.producer.pc = .writeValue value) : Inv (r.writeValue value) cap pushed popped seen := by
  obtain ⟨slot, hslot⟩ := h.slot_exists pushed.length
  have hroom : pushed.length < seen + cap := by
    have hok := h.producer
    rw [hpc] at hok
    exact hok
  have hbehind := h.behind
  let r' := r.setSlot (pushed.length % cap) { slot with value := some value }
  have hseq : ∀ j, r'.seqAt j = r.seqAt j := by
    intro j
    rw [seqAt_setSlot hslot]
    by_cases hj : j = pushed.length % cap
    · rw [if_pos hj, hj, seqAt, hslot]
      rfl
    · rw [if_neg hj]
  have hvalue : ∀ j, r'.valueAt j = if j = pushed.length % cap then some value else r.valueAt j :=
    fun j => valueAt_setSlot hslot
  unfold Ring.writeValue
  simp only [h.producer_index, hslot]
  exact
    { h with
      capacity := (capacity_setSlot ..).trans h.capacity
      seqs := fun p hp hnear => (hseq _).trans (h.seqs p hp hnear)
      fresh := fun i hi hlt => (hseq _).trans (h.fresh i hi hlt)
      values := fun p hwaits hp => by
        refine (hvalue _).trans ?_
        rw [if_neg (slot_ne hp (by omega))]
        exact h.values p hwaits hp
      producer := ⟨hroom, (hvalue _).trans (if_pos rfl)⟩
      consumer := h.consumer }

/-- Publishing makes the value wait behind the others. -/
theorem storeSeq (h : Inv r cap pushed popped seen) {value : α}
    (hpc : r.producer.pc = .storeSeq value) :
    Inv (r.storeSeq value).1 cap (pushed ++ [value]) popped seen ∧
      (r.storeSeq value).2 = some (.sent value) := by
  obtain ⟨slot, hslot⟩ := h.slot_exists pushed.length
  obtain ⟨hroom, hwritten⟩ : pushed.length < seen + cap ∧
      r.valueAt (pushed.length % cap) = some value := by
    have hok := h.producer
    rw [hpc] at hok
    exact hok
  have hcap := h.capacity_spec
  have hbehind := h.behind
  let next := (pushed.length + 1) % usizeModulus
  let r' := r.setSlot (pushed.length % cap) { slot with seq := next }
  have hseq : ∀ j, r'.seqAt j = if j = pushed.length % cap then some next else r.seqAt j :=
    fun j => seqAt_setSlot hslot
  have hvalue : ∀ j, r'.valueAt j = r.valueAt j := by
    intro j
    rw [valueAt_setSlot hslot]
    by_cases hj : j = pushed.length % cap
    · rw [if_pos hj, hj, valueAt, hslot]
      rfl
    · rw [if_neg hj]
  have hlength : (pushed ++ [value]).length = pushed.length + 1 := by simp
  have hnext : nextPosition r.producer.position = next := by rw [h.producerPosition, nextPosition_mod]
  unfold Ring.storeSeq
  simp only [h.producer_index, hnext, hslot]
  refine ⟨?_, trivial⟩
  exact
    { h with
      capacity := (capacity_setSlot ..).trans h.capacity
      order := h.order.trans (List.prefix_append ..)
      producerPosition := by rw [hlength]
      window := by rw [hlength]; omega
      seqs := fun p hp hnear => by
        rw [hlength] at hp hnear
        refine (hseq _).trans ?_
        rcases Nat.lt_succ_iff_lt_or_eq.mp hp with hlt | rfl
        · rw [if_neg (slot_ne hlt (by omega))]
          exact h.seqs p hlt (by omega)
        · rw [if_pos rfl]
      fresh := fun i hi hlt => by
        rw [hlength] at hi
        refine (hseq _).trans ?_
        rw [Nat.mod_eq_of_lt (show pushed.length < cap by omega), if_neg (by omega)]
        exact h.fresh i (by omega) hlt
      values := fun p hwaits hp => by
        rw [hlength] at hp
        refine (hvalue _).trans ?_
        rcases Nat.lt_succ_iff_lt_or_eq.mp hp with hlt | rfl
        · rw [h.values p hwaits hlt, List.getElem?_append_left hlt]
        · rw [hwritten]
          simp
      producer := trivial
      consumer := by
        have hok := h.consumer
        show ConsumerOk (pushed ++ [value]) popped r.consumer.pc
        cases hpc' : r.consumer.pc with
        | idle => trivial
        | loadSeq => trivial
        | readValue =>
            rw [hpc'] at hok
            exact Nat.lt_of_lt_of_le hok (by simp)
        | storeHead v =>
            rw [hpc'] at hok
            exact hok.trans (List.prefix_append ..)
        | unreachable =>
            rw [hpc'] at hok
            exact hok
        | uninit =>
            rw [hpc'] at hok
            exact hok }

/-- The consumer looks at its slot: empty is exact at this moment. -/
theorem loadSeq (h : Inv r cap pushed popped seen) : Inv r.loadSeq.1 cap pushed popped seen ∧
    (r.loadSeq.2 = some none ∧ popped = pushed ∨ r.loadSeq.2 = none ∧ popped ≠ pushed) := by
  unfold Ring.loadSeq
  rw [h.published_eq]
  by_cases hwaits : popped.length < pushed.length
  · simp only [hwaits, decide_true]
    refine ⟨h.setConsumerPc hwaits, .inr ⟨trivial, ?_⟩⟩
    rintro rfl
    omega
  · simp only [hwaits, decide_false]
    refine ⟨h.setConsumerPc trivial, .inl ⟨trivial, ?_⟩⟩
    exact h.order.eq_of_length (Nat.le_antisymm h.length_le (not_lt.mp hwaits))

/-- The consumer reads the value that was pushed next. -/
theorem readValue (h : Inv r cap pushed popped seen) (hpc : r.consumer.pc = .readValue) :
    Inv r.readValue cap pushed popped seen := by
  have hwaits : popped.length < pushed.length := by
    have hok := h.consumer
    rw [hpc] at hok
    exact hok
  obtain ⟨slot, hslot⟩ := h.slot_exists popped.length
  have hvalue := h.values _ le_rfl hwaits
  rw [valueAt, hslot, Option.bind_some, List.getElem?_eq_getElem hwaits] at hvalue
  unfold Ring.readValue
  simp only [h.consumer_index, hslot, hvalue]
  refine h.setConsumerPc ?_
  obtain ⟨rest, rfl⟩ := h.order
  obtain ⟨next, rest, rfl⟩ := List.exists_cons_of_ne_nil (show rest ≠ [] by rintro rfl; simp at hwaits)
  simp [ConsumerOk]

/-- Storing the head gives the slot back, and the value is popped. -/
theorem storeHead (h : Inv r cap pushed popped seen) {value : α}
    (hpc : r.consumer.pc = .storeHead value) :
    Inv (r.storeHead value).1 cap pushed (popped ++ [value]) seen ∧
      (r.storeHead value).2 = some (some value) := by
  have hnext : popped ++ [value] <+: pushed := by
    have hok := h.consumer
    rw [hpc] at hok
    exact hok
  have hbehind := h.behind
  have hlength : (popped ++ [value]).length = popped.length + 1 := by simp
  unfold Ring.storeHead
  simp only [h.consumerPosition, nextPosition_mod]
  refine ⟨?_, trivial⟩
  exact
    { h with
      order := hnext
      consumerPosition := by rw [hlength]
      head := by rw [hlength]
      behind := by rw [hlength]; omega
      values := fun p hwaits hp => by
        rw [hlength] at hwaits
        exact h.values p (by omega) hp
      producer := by
        have hok := h.producer
        show Ring.ProducerOk _ cap pushed seen r.producer.pc
        cases hpc' : r.producer.pc <;> rw [hpc'] at hok <;> exact hok
      consumer := trivial }

end Inv

/-! ## §3 Runs -/

/-- The value of the call in progress. -/
def ProducerPc.value? : ProducerPc α → Option α
  | .loadHead value | .writeValue value | .storeSeq value => some value
  | .idle | .unreachable => none

/-- The slot whose value the producer's next access writes. -/
def nextWrite (r : Ring α) : Option Nat :=
  match r.producer.pc with
  | .writeValue _ => some (r.index r.producer.position)
  | _ => none

/-- What one queue of `capacity` values is to calls under way: where they stand, and
what their next accesses do. -/
structure IsQueue (capacity : Nat) (s : Run α) : Prop where
  /-- What was popped is what was pushed, in order, up to what waits. -/
  order : s.popped <+: s.pushed
  bounded : s.pushed.length ≤ s.popped.length + capacity
  defined : s.ring.producer.pc ≠ .unreachable ∧ s.ring.consumer.pc ≠ .unreachable ∧
    s.ring.consumer.pc ≠ .uninit
  /-- The consumer reads a value that was written, and pushed next. -/
  reading : s.ring.consumer.pc = .readValue →
    ∃ value, s.ring.valueAt (s.ring.index s.ring.consumer.position) = some value ∧
      s.popped ++ [value] <+: s.pushed
  taken : ∀ value, s.ring.consumer.pc = .storeHead value → s.popped ++ [value] <+: s.pushed
  /-- The producer writes no slot of a value that was not given back. -/
  apart : ∀ i, s.ring.nextWrite = some i →
    ∀ p, s.popped.length ≤ p → p < s.pushed.length → p % capacity ≠ i
  /-- Full is returned where the head was loaded, and a whole round was in use. -/
  full : ∀ value, s.ring.stepProducer.2 = some (.full value) ↔
    s.ring.producer.pc = .loadHead value ∧ s.pushed.length = s.popped.length + capacity
  /-- Nothing is returned where the slot was loaded, and nothing waited. -/
  empty : s.ring.stepConsumer.2 = some none ↔ s.ring.consumer.pc = .loadSeq ∧ s.popped = s.pushed
  isEmpty : s.ring.isEmpty = some true ↔ s.popped = s.pushed
  /-- An access of the producer goes on with its call's value, or returns it. -/
  calls : s.ring.stepProducer.2 = none ∧
      s.ring.stepProducer.1.producer.pc.value? = s.ring.producer.pc.value? ∨
    s.ring.stepProducer.1.producer.pc = .idle ∧ ∃ value, s.ring.producer.pc.value? = some value ∧
      (s.ring.stepProducer.2 = some (.sent value) ∨ s.ring.stepProducer.2 = some (.full value))

namespace Run

def Inv (capacity : Nat) (s : Run α) : Prop :=
  ∃ seen, Ring.Inv s.ring capacity s.pushed s.popped seen

variable {capacity : Nat}

theorem producer_inv {s : Run α} (h : s.Inv capacity) : (s.step .producer).Inv capacity := by
  obtain ⟨seen, hinv⟩ := h
  show Inv capacity (s.afterPush s.ring.stepProducer)
  cases hpc : s.ring.producer.pc with
  | idle =>
      simp only [stepProducer, hpc]
      exact ⟨seen, hinv⟩
  | loadHead value =>
      obtain ⟨hnext, hout⟩ := hinv.loadHead value
      simp only [stepProducer, hpc]
      rcases hout with ⟨hout, -⟩ | ⟨hout, -⟩ <;> exact ⟨_, by simpa [afterPush, hout] using hnext⟩
  | writeValue value =>
      simp only [stepProducer, hpc]
      exact ⟨seen, hinv.writeValue hpc⟩
  | storeSeq value =>
      obtain ⟨hnext, hout⟩ := hinv.storeSeq hpc
      simp only [stepProducer, hpc]
      exact ⟨seen, by simpa [afterPush, hout] using hnext⟩
  | unreachable =>
      have hok := hinv.producer
      rw [hpc] at hok
      exact absurd hok id

theorem consumer_inv {s : Run α} (h : s.Inv capacity) : (s.step .consumer).Inv capacity := by
  obtain ⟨seen, hinv⟩ := h
  show Inv capacity (s.afterPop s.ring.stepConsumer)
  have hok := hinv.consumer
  cases hpc : s.ring.consumer.pc with
  | idle =>
      simp only [stepConsumer, hpc]
      exact ⟨seen, hinv⟩
  | loadSeq =>
      obtain ⟨hnext, hout⟩ := hinv.loadSeq
      simp only [stepConsumer, hpc]
      rcases hout with ⟨hout, -⟩ | ⟨hout, -⟩ <;> exact ⟨_, by simpa [afterPop, hout] using hnext⟩
  | readValue =>
      simp only [stepConsumer, hpc]
      exact ⟨seen, hinv.readValue hpc⟩
  | storeHead value =>
      obtain ⟨hnext, hout⟩ := hinv.storeHead hpc
      simp only [stepConsumer, hpc]
      exact ⟨seen, by simpa [afterPop, hout] using hnext⟩
  | unreachable =>
      rw [hpc] at hok
      exact absurd hok id
  | uninit =>
      rw [hpc] at hok
      exact absurd hok id

theorem step_inv {s : Run α} (h : s.Inv capacity) (action : Action α) :
    (s.step action).Inv capacity := by
  cases action with
  | push value =>
      obtain ⟨seen, hinv⟩ := h
      cases hpc : s.ring.producer.pc with
      | idle =>
          simp only [step, hpc]
          exact ⟨seen, hinv.beginPush value⟩
      | _ =>
          simp only [step, hpc]
          exact ⟨seen, hinv⟩
  | producer => exact producer_inv h
  | pop =>
      obtain ⟨seen, hinv⟩ := h
      cases hpc : s.ring.consumer.pc with
      | idle =>
          simp only [step, hpc]
          exact ⟨seen, hinv.setConsumerPc trivial⟩
      | _ =>
          simp only [step, hpc]
          exact ⟨seen, hinv⟩
  | consumer => exact consumer_inv h

theorem foldl_step_inv : ∀ (actions : List (Action α)) {s : Run α}, s.Inv capacity →
    (actions.foldl step s).Inv capacity := by
  intro actions
  induction actions with
  | nil => intro s h; exact h
  | cons action actions ih => intro s h; exact ih (step_inv h action)

theorem start_inv {r : Ring α} (husize : capacity < usizeModulus)
    (h : Ring.channel capacity = .ok r) : (start r).Inv capacity :=
  ⟨0, Ring.Inv.channel husize h⟩

end Run

namespace Inv

variable {r : Ring α} {cap : Nat} {pushed popped : List α} {seen : Nat}

/-- Which producer's step returns full. -/
theorem full_iff (h : Inv r cap pushed popped seen) (value : α) :
    r.stepProducer.2 = some (.full value) ↔
      r.producer.pc = .loadHead value ∧ pushed.length = popped.length + cap := by
  cases hpc : r.producer.pc with
  | loadHead v =>
      simp only [stepProducer, hpc]
      obtain ⟨-, ⟨hout, hfull⟩ | ⟨hout, hroom⟩⟩ := h.loadHead v
      · simp [hout, hfull]
      · simp [hout, hroom]
  | storeSeq v => simp [stepProducer, hpc, (h.storeSeq hpc).2]
  | _ => simp [stepProducer, hpc]

/-- Which consumer's step returns nothing. -/
theorem empty_iff (h : Inv r cap pushed popped seen) :
    r.stepConsumer.2 = some none ↔ r.consumer.pc = .loadSeq ∧ popped = pushed := by
  cases hpc : r.consumer.pc with
  | loadSeq =>
      simp only [stepConsumer, hpc]
      obtain ⟨-, ⟨hout, hempty⟩ | ⟨hout, hwaits⟩⟩ := h.loadSeq
      · simp [hout, hempty]
      · simp [hout, hwaits]
  | storeHead v => simp [stepConsumer, hpc, (h.storeHead hpc).2]
  | _ => simp [stepConsumer, hpc]

theorem calls (h : Inv r cap pushed popped seen) :
    r.stepProducer.2 = none ∧ r.stepProducer.1.producer.pc.value? = r.producer.pc.value? ∨
      r.stepProducer.1.producer.pc = .idle ∧ ∃ value, r.producer.pc.value? = some value ∧
        (r.stepProducer.2 = some (.sent value) ∨ r.stepProducer.2 = some (.full value)) := by
  cases hpc : r.producer.pc with
  | idle =>
      simp only [stepProducer, hpc]
      exact .inl ⟨trivial, trivial⟩
  | loadHead value =>
      simp only [stepProducer, hpc]
      rw [Ring.loadHead]
      dsimp only
      split_ifs
      · exact .inr ⟨rfl, value, rfl, .inr rfl⟩
      · exact .inl ⟨rfl, rfl⟩
  | writeValue value =>
      obtain ⟨slot, hslot⟩ := h.slot_exists pushed.length
      simp only [stepProducer, hpc]
      simp only [Ring.writeValue, h.producer_index, hslot]
      exact .inl ⟨trivial, rfl⟩
  | storeSeq value =>
      obtain ⟨slot, hslot⟩ := h.slot_exists pushed.length
      simp only [stepProducer, hpc]
      simp only [Ring.storeSeq, h.producer_index, hslot]
      exact .inr ⟨trivial, value, rfl, .inl rfl⟩
  | unreachable =>
      have hok := h.producer
      rw [hpc] at hok
      exact absurd hok id

end Inv

namespace Run

theorem Inv.isQueue {capacity : Nat} {s : Run α} (h : s.Inv capacity) : IsQueue capacity s := by
  obtain ⟨seen, hinv⟩ := h
  have hbehind := hinv.behind
  have hwindow := hinv.window
  have hproducer := hinv.producer
  have hconsumer := hinv.consumer
  refine
    { order := hinv.order
      bounded := by omega
      defined := ?_
      reading := ?_
      taken := ?_
      apart := ?_
      full := hinv.full_iff
      empty := hinv.empty_iff
      isEmpty := ?_
      calls := hinv.calls }
  · refine ⟨fun hpc => ?_, fun hpc => ?_, fun hpc => ?_⟩
    · rw [hpc] at hproducer
      exact hproducer
    · rw [hpc] at hconsumer
      exact hconsumer
    · rw [hpc] at hconsumer
      exact hconsumer
  · intro hpc
    rw [hpc] at hconsumer
    rw [hinv.consumer_index, hinv.values _ le_rfl hconsumer]
    obtain ⟨rest, hrest⟩ := hinv.order
    obtain ⟨next, rest, rfl⟩ := List.exists_cons_of_ne_nil
      (show rest ≠ [] by rintro rfl; simp [← hrest, ConsumerOk] at hconsumer)
    refine ⟨next, ?_, ⟨rest, ?_⟩⟩
    · rw [← hrest]
      simp
    · rw [← hrest]
      simp
  · intro value hpc
    rw [hpc] at hconsumer
    exact hconsumer
  · intro i hwrite p hwaits hp
    unfold nextWrite at hwrite
    split at hwrite
    · next value hpc =>
      cases hwrite
      rw [hpc] at hproducer
      rw [hinv.producer_index]
      exact slot_ne hp (lt_of_lt_of_le hproducer (by omega))
    · cases hwrite
  · rw [Ring.isEmpty, hinv.published_eq]
    constructor
    · intro h
      refine hinv.order.eq_of_length (Nat.le_antisymm hinv.length_le ?_)
      simpa using h
    · rintro heq
      simp [heq]

end Run

/-- Under every interleaving of one producer and one consumer, wherever the positions
wrap, the ring is a queue of its capacity. -/
theorem ring_is_queue (capacity : Nat) (husize : capacity < usizeModulus) (r : Ring α)
    (h : Ring.channel capacity = .ok r) (actions : List (Action α)) :
    IsQueue capacity (actions.foldl Run.step (Run.start r)) :=
  (Run.foldl_step_inv actions (Run.start_inv husize h)).isQueue

/-- Three pushes, the third of them into a full ring, and two pops. -/
theorem ring_of_two_is_queue :
    let actions : List (Action Nat) :=
      [.push 7, .producer, .producer, .push 8, .producer, .pop, .producer, .consumer, .push 9,
        .producer, .consumer, .consumer, .push 9, .producer, .producer, .pop, .consumer, .producer,
        .consumer, .consumer]
    let s := actions.foldl Run.step (Run.start (empty 2))
    s.pushed = [7, 8, 9] ∧ s.popped = [7, 8] ∧ s.ring.head = 2 ∧ IsQueue 2 s := by
  have hchannel : (Ring.channel 2 : Except RingError (Ring Nat)) = .ok (empty 2) := rfl
  refine ⟨?_, ?_, ?_, ring_is_queue 2 (by decide +kernel) (empty 2) hchannel _⟩
  · decide +kernel
  · decide +kernel
  · decide +kernel

end Ring

end Bowst.Core
