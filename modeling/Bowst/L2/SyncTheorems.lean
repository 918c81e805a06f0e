/-
Bowst.L2.SyncTheorems — what a `BookSync` keeps true under arbitrary input.

  §1 The book      — both ladders keep their invariant and follow a pair of
                     price maps (`Book.Refines`).
  §2 The buffer    — buffered messages form a chain and tile the shared list of
                     updates (`Buffered`).
  §3 Replay        — what `on_snapshot` applies of the buffer, and the one
                     message that can make it fail.
  §4 Inversion     — how a sync can be live after a call, and where each error
                     comes from.
  §5 The invariant — `BookSync.Inv`, over any run.
-/
import Mathlib.Data.List.Chain
import Bowst.L2.LadderTheorems
import Bowst.L2.Sync

namespace Bowst.L2

open Bowst.Core Bowst.Lib

/-! ## §1 The book -/

/-- The meaning of a two-sided book: a price map for each side. -/
abbrev BookMap := Side → PriceMap

namespace BookMap

/-- Sets the quantity of one level of one side. -/
def apply (t : BookMap) (u : LevelUpdate) : BookMap :=
  Function.update t u.side ((t u.side).set u.price u.qty)

/-- Sets a list of levels in order. -/
def applyAll (t : BookMap) (updates : List LevelUpdate) : BookMap := updates.foldl apply t

/-- The two lists of levels a snapshot carries. -/
def ofSnapshot (bids asks : List Level) : BookMap
  | .buy => .ofLevels bids
  | .sell => .ofLevels asks

end BookMap

/-- What `apply` accepts: a positive price and a quantity that is not negative. -/
def LevelUpdate.Valid (u : LevelUpdate) : Prop := 0 < u.price ∧ 0 ≤ u.qty

instance (u : LevelUpdate) : Decidable u.Valid := inferInstanceAs (Decidable (_ ∧ _))

namespace Book

/-- The representation invariant of a book with `capacity` levels per side. -/
structure Inv (b : Book) (capacity : Nat) : Prop where
  ladder : ∀ s, (b.side s).Inv
  sided : ∀ s, (b.side s).side = s
  sized : ∀ s, (b.side s).capacity = capacity

/-- Each side means its map, up to its horizon. -/
def Refines (b : Book) (t : BookMap) : Prop := ∀ s, (b.side s).Refines (t s)

@[simp] theorem side_setSide_self (b : Book) (s : Side) (l : Ladder) :
    (b.setSide s l).side s = l := by
  cases s <;> rfl

@[simp] theorem side_setSide_of_ne (b : Book) {s s' : Side} (l : Ladder) (h : s' ≠ s) :
    (b.setSide s l).side s' = b.side s' := by
  cases s <;> cases s' <;> first | rfl | exact absurd rfl h

@[simp] theorem side_clear (b : Book) (s : Side) : b.clear.side s = (b.side s).clear := by
  cases s <;> rfl

theorem apply_snd (b : Book) (u : LevelUpdate) :
    (b.apply u).2 = b.setSide u.side ((b.side u.side).apply u.price u.qty).2 := rfl

theorem apply_inv {b : Book} {capacity : Nat} (hinv : b.Inv capacity) (u : LevelUpdate) :
    (b.apply u).2.Inv capacity := by
  rw [apply_snd]
  refine ⟨fun s => ?_, fun s => ?_, fun s => ?_⟩
  all_goals by_cases hs : s = u.side
  · subst hs; simpa using Ladder.apply_inv (hinv.ladder _) u.price u.qty
  · rw [side_setSide_of_ne b _ hs]; exact hinv.ladder s
  · subst hs; simpa using hinv.sided _
  · rw [side_setSide_of_ne b _ hs]; exact hinv.sided s
  · subst hs; simpa using hinv.sized _
  · rw [side_setSide_of_ne b _ hs]; exact hinv.sized s

/-- One update succeeds exactly when it is valid, and then sets its level. -/
theorem apply_spec {b : Book} {capacity : Nat} {t : BookMap} (hinv : b.Inv capacity)
    (href : b.Refines t) {u : LevelUpdate} (hu : u.Valid) :
    (∃ applied, (b.apply u).1 = .ok applied) ∧ (b.apply u).2.Refines (t.apply u) := by
  obtain ⟨hok, _, hset⟩ := Ladder.apply_spec (hinv.ladder u.side) (href u.side) hu
  refine ⟨hok, fun s => ?_⟩
  rw [apply_snd, BookMap.apply]
  by_cases hs : s = u.side
  · subst hs; simpa using hset
  · rw [side_setSide_of_ne b _ hs, Function.update_of_ne hs]
    exact href s

theorem applyAll_inv : ∀ (updates : List LevelUpdate) {b : Book} {capacity : Nat},
    b.Inv capacity → (b.applyAll updates).2.Inv capacity := by
  intro updates
  induction updates with
  | nil => intro b capacity hinv; exact hinv
  | cons u us ih =>
      intro b capacity hinv
      have hstep := apply_inv hinv u
      rw [applyAll]
      cases hres : b.apply u with
      | mk res b' =>
          rw [hres] at hstep
          cases res with
          | error err => exact hstep
          | ok applied => exact ih hstep

/-- Valid updates all succeed, and the book follows the maps. -/
theorem applyAll_spec : ∀ (updates : List LevelUpdate) {b : Book} {capacity : Nat} {t : BookMap},
    b.Inv capacity → b.Refines t → (∀ u ∈ updates, u.Valid) →
    (b.applyAll updates).1 = .ok () ∧ (b.applyAll updates).2.Refines (t.applyAll updates) := by
  intro updates
  induction updates with
  | nil => intro b capacity t _ href _; exact ⟨rfl, href⟩
  | cons u us ih =>
      intro b capacity t hinv href hvalid
      obtain ⟨⟨applied, hok⟩, hset⟩ := apply_spec hinv href (hvalid u (List.mem_cons_self ..))
      have hstep := apply_inv hinv u
      rw [applyAll]
      cases hres : b.apply u with
      | mk res b' =>
          rw [hres] at hok hset hstep
          simp only at hok hset hstep
          rw [hok]
          exact ih hstep hset fun v hv => hvalid v (List.mem_cons_of_mem _ hv)

theorem clear_inv {b : Book} {capacity : Nat} (hinv : b.Inv capacity) :
    b.clear.Inv capacity := by
  refine ⟨fun s => ?_, fun s => ?_, fun s => ?_⟩ <;> rw [side_clear]
  · exact Ladder.clear_inv (hinv.ladder s).room
  · exact hinv.sided s
  · exact hinv.sized s

@[simp] theorem clear_clear (b : Book) : b.clear.clear = b.clear := rfl

/-- The book a load leaves: both sides loaded, or nothing at all. -/
theorem load_eq (b : Book) (bids asks : List Level) :
    ((b.load bids asks).1 = .ok () ∧ (b.bids.load bids).1 = .ok () ∧
      (b.asks.load asks).1 = .ok () ∧
      (b.load bids asks).2 = ⟨(b.bids.load bids).2, (b.asks.load asks).2⟩) ∨
    ((∃ err, (b.load bids asks).1 = .error err ∧
        ((b.bids.load bids).1 = .error err ∨ (b.asks.load asks).1 = .error err)) ∧
      (b.load bids asks).2 = b.clear) := by
  have hclear : ∀ (l : Ladder) (levels : List Level), (l.load levels).2.clear = l.clear := by
    intro l levels
    have h1 := Ladder.load_side l levels
    have h2 := Ladder.load_capacity l levels
    simp only [Ladder.clear, h1, h2]
  have hb := hclear b.bids bids
  have ha := hclear b.asks asks
  unfold load
  cases hbids : b.bids.load bids with
  | mk res l =>
      rw [hbids] at hb
      cases res with
      | error err => right; exact ⟨⟨err, rfl, Or.inl rfl⟩, by simp [clear, hb]⟩
      | ok u =>
          cases hasks : b.asks.load asks with
          | mk res' l' =>
              rw [hasks] at ha
              cases res' with
              | error err => right; exact ⟨⟨err, rfl, Or.inr rfl⟩, by simp [clear, ha, hb]⟩
              | ok u' => left; exact ⟨rfl, rfl, rfl, rfl⟩

theorem load_inv {b : Book} {capacity : Nat} (hinv : b.Inv capacity) (bids asks : List Level) :
    (b.load bids asks).2.Inv capacity := by
  rcases load_eq b bids asks with ⟨_, _, _, heq⟩ | ⟨_, heq⟩
  · rw [heq]
    refine ⟨fun s => ?_, fun s => ?_, fun s => ?_⟩ <;> cases s
    · exact Ladder.load_inv (hinv.ladder .buy).room bids
    · exact Ladder.load_inv (hinv.ladder .sell).room asks
    · exact (Ladder.load_side ..).trans (hinv.sided .buy)
    · exact (Ladder.load_side ..).trans (hinv.sided .sell)
    · exact (Ladder.load_capacity ..).trans (hinv.sized .buy)
    · exact (Ladder.load_capacity ..).trans (hinv.sized .sell)
  · rw [heq]
    exact clear_inv hinv

theorem load_error {b : Book} {bids asks : List Level} {err : BookError}
    (h : (b.load bids asks).1 = .error err) : (b.load bids asks).2 = b.clear := by
  rcases load_eq b bids asks with ⟨hok, _⟩ | ⟨_, heq⟩
  · rw [hok] at h; cases h
  · exact heq

/-- The levels of a snapshot side: no price twice, all positive. -/
def ValidSide (levels : List Level) : Prop :=
  (levels.map Level.price).Nodup ∧ ∀ level ∈ levels, 0 < level.price ∧ 0 < level.qty

/-- A valid snapshot loads, and the book means its levels. -/
theorem load_spec {b : Book} {capacity : Nat} (hinv : b.Inv capacity) {bids asks : List Level}
    (hbids : ValidSide bids) (hasks : ValidSide asks) :
    (b.load bids asks).1 = .ok () ∧
      (b.load bids asks).2.Refines (BookMap.ofSnapshot bids asks) := by
  have hside : ∀ {l : Ladder} {levels : List Level}, l.Inv → ValidSide levels →
      (l.load levels).1 = .ok () ∧ (l.load levels).2.Refines (.ofLevels levels) := by
    intro l levels hl hv
    obtain ⟨hiff, hmeans⟩ := Ladder.load_spec hl.room hv.1
    have hok := hiff.mpr hv.2
    refine ⟨hok, ?_⟩
    rw [← LadderCall.setAll_empty_eq_ofLevels hv.1 fun y hy => ne_of_gt (hv.2 y hy).2]
    exact hmeans hok
  obtain ⟨hb, hbr⟩ := hside (hinv.ladder .buy) hbids
  obtain ⟨ha, har⟩ := hside (hinv.ladder .sell) hasks
  rcases load_eq b bids asks with ⟨hok, _, _, heq⟩ | ⟨⟨err, _, h⟩, _⟩
  · refine ⟨hok, fun s => ?_⟩
    rw [heq]
    cases s
    · exact hbr
    · exact har
  · rcases h with h | h
    · exact absurd (h.symm.trans hb) nofun
    · exact absurd (h.symm.trans ha) nofun

theorem applyAll_append : ∀ (xs ys : List LevelUpdate) (b : Book),
    b.applyAll (xs ++ ys) =
      match b.applyAll xs with
      | (.error err, b') => (.error err, b')
      | (.ok (), b') => b'.applyAll ys := by
  intro xs
  induction xs with
  | nil => intro ys b; rfl
  | cons x xs ih =>
      intro ys b
      rw [List.cons_append, applyAll, applyAll]
      cases b.apply x with
      | mk res b' =>
          cases res with
          | error err => rfl
          | ok applied => exact ih ys b'

end Book

theorem SeqRange.continues_iff (r : SeqRange) (prev : Nat) :
    r.continues prev = true ↔ r.first ≤ prev + 1 := by
  have h1 := r.le
  have h2 := r.bounded
  unfold SeqRange.continues saturatingAdd
  rw [decide_eq_true_iff]
  omega

/-! ## §2 The buffer -/

/-- The windows of `pending` cover `pos .. total` without holes, in order. -/
def Tiles : Nat → List Pending → Nat → Prop
  | pos, [], total => pos = total
  | pos, p :: rest, total => p.start = pos ∧ Tiles (pos + p.len) rest total

theorem Tiles.window_le : ∀ {pending : List Pending} {pos total : Nat}, Tiles pos pending total →
    pos ≤ total ∧ ∀ p ∈ pending, p.start + p.len ≤ total := by
  intro pending
  induction pending with
  | nil => intro pos total h; exact ⟨le_of_eq h, fun p hp => absurd hp List.not_mem_nil⟩
  | cons p rest ih =>
      intro pos total h
      obtain ⟨hpos, hrest⟩ := ih h.2
      refine ⟨by omega, fun q hq => ?_⟩
      rcases List.mem_cons.mp hq with rfl | hq
      · rw [h.1]; exact hpos
      · exact hrest q hq

theorem Tiles.push : ∀ {pending : List Pending} {pos total : Nat}, Tiles pos pending total →
    ∀ (range : SeqRange) (len : Nat), Tiles pos (pending ++ [⟨range, total, len⟩]) (total + len) := by
  intro pending
  induction pending with
  | nil => intro pos total h range len; cases h; exact ⟨rfl, rfl⟩
  | cons p rest ih => intro pos total h range len; exact ⟨h.1, ih h.2 range len⟩

/-- A window that ends inside the list does not see what is appended. -/
theorem Pending.slice_append {p : Pending} {updates : List LevelUpdate}
    (h : p.start + p.len ≤ updates.length) (more : List LevelUpdate) :
    p.slice (updates ++ more) = p.slice updates := by
  unfold Pending.slice
  rw [List.drop_append_of_le_length (by omega), List.take_append_of_le_length]
  rw [List.length_drop]
  omega

/-- How one buffered message follows another: no hole, and it reaches further. -/
def Follows (prev next : Pending) : Prop :=
  next.range.first ≤ prev.range.last + 1 ∧ prev.range.last < next.range.last

/-- A buffer in order. `D` is what is known of every message it was given. -/
structure Buffered (config : SyncConfig) (D : SeqRange → List LevelUpdate → Prop)
    (pending : List Pending) (updates : List LevelUpdate) : Prop where
  storage : 0 < config.bufferedMessages
  messages : pending.length ≤ config.bufferedMessages
  room : updates.length ≤ config.bufferedUpdates
  tiles : Tiles 0 pending updates.length
  chained : pending.IsChain Follows
  delivered : ∀ p ∈ pending, D p.range (p.slice updates)

theorem Buffered.nil {config : SyncConfig} {D : SeqRange → List LevelUpdate → Prop}
    (h : 0 < config.bufferedMessages) : Buffered config D [] [] :=
  ⟨h, Nat.zero_le _, Nat.zero_le _, rfl, .nil, fun _ hp => absurd hp List.not_mem_nil⟩

/-- One more message at the end of an ordered buffer with room for it. -/
theorem Buffered.push {config : SyncConfig} {D : SeqRange → List LevelUpdate → Prop}
    {pending : List Pending} {updates us : List LevelUpdate} {range : SeqRange}
    (h : Buffered config D pending updates) (hd : D range us)
    (hmessages : pending.length < config.bufferedMessages)
    (hroom : updates.length + us.length ≤ config.bufferedUpdates)
    (hfollows : ∀ prev ∈ pending.getLast?, range.first ≤ prev.range.last + 1 ∧
      prev.range.last < range.last) :
    Buffered config D (pending ++ [⟨range, updates.length, us.length⟩]) (updates ++ us) := by
  refine ⟨h.storage, by simp; omega, by simpa using hroom, ?_, ?_, ?_⟩
  · rw [List.length_append]
    exact h.tiles.push range us.length
  · refine List.IsChain.append h.chained (.singleton _) ?_
    intro prev hprev next hnext
    cases hnext
    exact hfollows prev hprev
  · intro p hp
    rcases List.mem_append.mp hp with hp | hp
    · rw [Pending.slice_append (h.tiles.window_le.2 p hp)]
      exact h.delivered p hp
    · rw [List.mem_singleton.mp hp]
      have hslice : (⟨range, updates.length, us.length⟩ : Pending).slice (updates ++ us) = us := by
        simp [Pending.slice]
      rw [hslice]
      exact hd

namespace BookSync

/-- All the updates of a message are kept, or the whole buffer is dropped. -/
theorem pushUpdates_eq : ∀ (us : List LevelUpdate) (s : BookSync),
    s.pendingUpdates.length ≤ s.config.bufferedUpdates →
    s.pushUpdates us =
      if s.pendingUpdates.length + us.length ≤ s.config.bufferedUpdates
      then (true, { s with pendingUpdates := s.pendingUpdates ++ us })
      else (false, s.restartBuffer) := by
  intro us
  induction us with
  | nil => intro s h; simp [pushUpdates, h]
  | cons u us ih =>
      intro s h
      rw [pushUpdates]
      by_cases hfull : s.pendingUpdates.length ≥ s.config.bufferedUpdates
      · rw [if_pos hfull, if_neg (by simp; omega)]
      · rw [if_neg hfull, ih _ (by simp; omega)]
        simp only [List.length_append, List.length_cons, List.length_nil, List.append_assoc,
          List.cons_append, List.nil_append]
        by_cases hfit : s.pendingUpdates.length + (us.length + 1) ≤ s.config.bufferedUpdates
        · rw [if_pos hfit, if_pos (by omega)]
        · rw [if_neg hfit, if_neg (by omega)]
          rfl

/-- What `buffer` does not touch. -/
def SameBook (s s' : BookSync) : Prop :=
  s'.internalBook = s.internalBook ∧ s'.state = s.state ∧ s'.config = s.config

/-- The buffer of a sync is in order. -/
def Ordered (D : SeqRange → List LevelUpdate → Prop) (s : BookSync) : Prop :=
  Buffered s.config D s.pending s.pendingUpdates

variable {D : SeqRange → List LevelUpdate → Prop} {s : BookSync}

theorem restartBuffer_ordered (h : s.Ordered D) : s.restartBuffer.Ordered D := Buffered.nil h.storage

theorem store_ordered (h : s.Ordered D) {range : SeqRange} {us : List LevelUpdate} (hd : D range us)
    (hfollows : ∀ prev ∈ s.pending.getLast?, range.first ≤ prev.range.last + 1 ∧
      prev.range.last < range.last) :
    (s.store range us).Ordered D ∧ SameBook s (s.store range us) := by
  -- With no room for the message itself, the buffer restarts before it is stored.
  have hstart : ∃ s₀, (if s.pending.length ≥ s.config.bufferedMessages then s.restartBuffer else s)
      = s₀ ∧ s₀.Ordered D ∧ SameBook s s₀ ∧ s₀.pending.length < s₀.config.bufferedMessages ∧
      ∀ prev ∈ s₀.pending.getLast?, range.first ≤ prev.range.last + 1 ∧
        prev.range.last < range.last := by
    by_cases hfull : s.pending.length ≥ s.config.bufferedMessages
    · refine ⟨_, if_pos hfull, restartBuffer_ordered h, ⟨rfl, rfl, rfl⟩, h.storage, ?_⟩
      intro prev hprev; cases hprev
    · exact ⟨_, if_neg hfull, h, ⟨rfl, rfl, rfl⟩, by omega, hfollows⟩
  obtain ⟨s₀, heq, hord, hsame, hroom, hprev⟩ := hstart
  unfold store
  rw [heq]
  dsimp only
  rw [pushUpdates_eq us s₀ hord.room]
  by_cases hfit : s₀.pendingUpdates.length + us.length ≤ s₀.config.bufferedUpdates
  · rw [if_pos hfit]
    simp only [List.length_append, Nat.add_sub_cancel_left]
    exact ⟨hord.push hd hroom hfit hprev, hsame⟩
  · rw [if_neg hfit]
    exact ⟨restartBuffer_ordered hord, hsame⟩

/-- The spec of `buffer`. -/
theorem buffer_ordered (h : s.Ordered D) {range : SeqRange} {us : List LevelUpdate}
    (hd : D range us) : (s.buffer range us).2.Ordered D ∧ SameBook s (s.buffer range us).2 := by
  unfold buffer
  cases hlast : s.pending.getLast? with
  | none => exact store_ordered h hd (by simp [hlast])
  | some prev =>
      dsimp only
      by_cases hstale : range.last ≤ prev.range.last
      · rw [if_pos hstale]
        exact ⟨h, rfl, rfl, rfl⟩
      · rw [if_neg hstale]
        by_cases hcont : range.continues prev.range.last = true
        · rw [if_neg (by simp [hcont])]
          refine store_ordered h hd ?_
          intro p hp
          rw [hlast] at hp
          cases hp
          exact ⟨(range.continues_iff _).mp hcont, by omega⟩
        · rw [if_pos (by simp [hcont])]
          exact store_ordered (restartBuffer_ordered h) hd (by simp [restartBuffer])

end BookSync

/-! ## §3 Replay -/

/-- The buffered messages from the first one that ends after `seq`. -/
def kept (seq : Nat) : List Pending → List Pending
  | [] => []
  | p :: rest => if p.range.last ≤ seq then kept seq rest else p :: rest

/-- What `kept` passes over ends at or before `seq`; what it stops at does not. -/
theorem kept_split (seq : Nat) : ∀ (pending : List Pending), ∃ old, pending = old ++ kept seq pending ∧
    (∀ p ∈ old, p.range.last ≤ seq) ∧ ∀ m ∈ (kept seq pending).head?, seq < m.range.last := by
  intro pending
  induction pending with
  | nil => exact ⟨[], rfl, by simp, by simp [kept]⟩
  | cons p rest ih =>
      by_cases hold : p.range.last ≤ seq
      · obtain ⟨old, heq, hle, hhead⟩ := ih
        rw [kept, if_pos hold]
        refine ⟨p :: old, by rw [List.cons_append, ← heq], ?_, hhead⟩
        intro q hq
        rcases List.mem_cons.mp hq with rfl | hq
        · exact hold
        · exact hle q hq
      · rw [kept, if_neg hold]
        refine ⟨[], rfl, by simp, ?_⟩
        intro m hm
        cases hm
        omega

theorem replayPending_kept (updates : List LevelUpdate) (book : Book) (seq : Nat) :
    ∀ (pending : List Pending), replayPending updates pending book seq =
      replayPending updates (kept seq pending) book seq := by
  intro pending
  induction pending with
  | nil => rfl
  | cons p rest ih =>
      by_cases hold : p.range.last ≤ seq
      · rw [replayPending, if_pos hold, ih, kept, if_pos hold]
      · rw [kept, if_neg hold]

theorem replayPending_old (updates : List LevelUpdate) (book : Book) (seq : Nat) :
    ∀ (old : List Pending), (∀ p ∈ old, p.range.last ≤ seq) →
      replayPending updates old book seq = .caughtUp book seq := by
  intro old
  induction old with
  | nil => intro _; rfl
  | cons p rest ih =>
      intro hold
      rw [replayPending, if_pos (hold p (List.mem_cons_self ..))]
      exact ih fun q hq => hold q (List.mem_cons_of_mem _ hq)

/-- The messages and where they end, as the list of deltas they were. -/
def deltasOf (updates : List LevelUpdate) (ps : List Pending) :
    List (SeqRange × List LevelUpdate) :=
  ps.map fun p => (p.range, p.slice updates)

/-- The sequence number reached after a list of deltas. -/
def seqAfter (seq : Nat) (deltas : List (SeqRange × List LevelUpdate)) : Nat :=
  deltas.foldl (fun _ d => d.1.last) seq

/-- The updates of a list of deltas, in order. -/
def updatesOf (deltas : List (SeqRange × List LevelUpdate)) : List LevelUpdate :=
  deltas.flatMap Prod.snd

/-- A list of deltas that continue from `seq` and from each other. -/
def ContinuesFrom : Nat → List (SeqRange × List LevelUpdate) → Prop
  | _, [] => True
  | seq, d :: rest => d.1.first ≤ seq + 1 ∧ seq < d.1.last ∧ ContinuesFrom d.1.last rest

/-- A chained buffer whose head continues from `seq` continues from it throughout. -/
theorem continuesFrom_deltasOf (updates : List LevelUpdate) : ∀ {ps : List Pending} {seq : Nat},
    ps.IsChain Follows → (∀ m ∈ ps.head?, m.range.first ≤ seq + 1 ∧ seq < m.range.last) →
    ContinuesFrom seq (deltasOf updates ps) := by
  intro ps
  induction ps with
  | nil => intro seq _ _; trivial
  | cons p rest ih =>
      intro seq hchain hhead
      obtain ⟨hnext, hrest⟩ := List.isChain_cons.mp hchain
      obtain ⟨hfirst, hlast⟩ := hhead p rfl
      exact ⟨hfirst, hlast, ih hrest hnext⟩

/-- Messages that continue from the cursor and from each other are all applied. -/
theorem replayPending_continues (updates : List LevelUpdate) : ∀ (ps : List Pending) (book : Book)
    (cursor : Nat), ContinuesFrom cursor (deltasOf updates ps) →
    replayPending updates ps book cursor =
      match book.applyAll (updatesOf (deltasOf updates ps)) with
      | (.error err, _) => .invalid err
      | (.ok (), book') => .caughtUp book' (seqAfter cursor (deltasOf updates ps)) := by
  intro ps
  induction ps with
  | nil => intro book cursor _; rfl
  | cons p rest ih =>
      intro book cursor h
      have hcont := (p.range.continues_iff cursor).mpr h.1
      have hlast : ¬ p.range.last ≤ cursor := Nat.not_le.mpr h.2.1
      have hsplit : updatesOf (deltasOf updates (p :: rest)) =
          p.slice updates ++ updatesOf (deltasOf updates rest) := rfl
      rw [replayPending, if_neg hlast, if_neg (by simp [hcont]), hsplit, Book.applyAll_append]
      cases book.applyAll (p.slice updates) with
      | mk res book' =>
          cases res with
          | error err => rfl
          | ok u => exact ih book' p.range.last h.2.2

/-- The whole loop over a chained buffer: too old for the first message it
keeps, or every kept message is applied. -/
theorem replayPending_spec {updates : List LevelUpdate} {pending : List Pending} (book : Book)
    (seq : Nat) (hchain : pending.IsChain Follows) :
    (∃ m ∈ (kept seq pending).head?, seq + 1 < m.range.first ∧
      replayPending updates pending book seq = .tooOld m.range.first) ∨
    (ContinuesFrom seq (deltasOf updates (kept seq pending)) ∧
      replayPending updates pending book seq =
        match book.applyAll (updatesOf (deltasOf updates (kept seq pending))) with
        | (.error err, _) => .invalid err
        | (.ok (), book') =>
            .caughtUp book' (seqAfter seq (deltasOf updates (kept seq pending)))) := by
  rw [replayPending_kept]
  obtain ⟨old, hsplit, _, hhead⟩ := kept_split seq pending
  have hchain' : (kept seq pending).IsChain Follows := by
    rw [hsplit] at hchain
    exact (List.isChain_append.mp hchain).2.1
  by_cases hold : ∀ m ∈ (kept seq pending).head?, m.range.first ≤ seq + 1
  · right
    have hcont : ContinuesFrom seq (deltasOf updates (kept seq pending)) :=
      continuesFrom_deltasOf updates hchain' fun m hm => ⟨hold m hm, hhead m hm⟩
    exact ⟨hcont, replayPending_continues updates _ book seq hcont⟩
  · left
    push Not at hold
    obtain ⟨m, hm, hfirst⟩ := hold
    obtain ⟨rest, hrest⟩ := List.head?_eq_some_iff.mp hm
    have hlast := hhead m hm
    have hbreak : ¬ m.range.continues seq = true := by
      rw [SeqRange.continues_iff]; omega
    refine ⟨m, hm, hfirst, ?_⟩
    rw [hrest, replayPending, if_neg (by omega), if_pos (by simp [hbreak])]

/-! ## §4 Inversion -/

namespace BookSync

/-- Everything `onDelta` can do. -/
inductive DeltaStep (s : BookSync) (range : SeqRange) (us : List LevelUpdate) :
    Except SyncError DeltaOutcome → BookSync → Prop
  | buffered (hstate : s.state = .awaitingSnapshot) :
      DeltaStep s range us (.ok (s.buffer range us).1) (s.buffer range us).2
  | stale {last : Nat} (hstate : s.state = .live last) (hold : range.last ≤ last) :
      DeltaStep s range us (.ok .stale) s.countStale
  | gap {last : Nat} (hstate : s.state = .live last) (hnew : last < range.last)
      (hgap : last + 1 < range.first) :
      DeltaStep s range us (.error (.gap (saturatingAdd last 1) range))
        (s.invalidate.buffer range us).2
  | invalid {last : Nat} {err : BookError} {book : Book} (hstate : s.state = .live last)
      (hnew : last < range.last) (hfirst : range.first ≤ last + 1)
      (happly : s.internalBook.applyAll us = (.error err, book)) :
      DeltaStep s range us (.error (.book err)) ({ s with internalBook := book } : BookSync).invalidate
  | crossed {last : Nat} {book : Book} {bid ask : Price} (hstate : s.state = .live last)
      (hnew : last < range.last) (hfirst : range.first ≤ last + 1)
      (happly : s.internalBook.applyAll us = (.ok (), book)) (hcrossed : book.isCrossed = true) :
      DeltaStep s range us (.error (.crossed bid ask))
        ({ s with internalBook := book, state := .live range.last } : BookSync).invalidate
  | applied {last : Nat} {book : Book} (hstate : s.state = .live last)
      (hnew : last < range.last) (hfirst : range.first ≤ last + 1)
      (happly : s.internalBook.applyAll us = (.ok (), book)) (huncrossed : book.isCrossed = false) :
      DeltaStep s range us (.ok .applied)
        { s with internalBook := book, state := .live range.last }

/-- Everything `onSnapshot` can do. -/
inductive SnapshotStep (s : BookSync) (seq : Nat) (bids asks : List Level) :
    Except SyncError Bool → BookSync → Prop
  | stale {last : Nat} (hstate : s.state = .live last) (hold : seq < last) :
      SnapshotStep s seq bids asks (.ok false) s
  | refused {err : BookError} {book : Book} (hfresh : ∀ last, s.state = .live last → last ≤ seq)
      (hload : s.internalBook.load bids asks = (.error err, book)) :
      SnapshotStep s seq bids asks (.error (.book err))
        ({ s with internalBook := book } : BookSync).invalidate
  | tooOld {book : Book} {firstBuffered : Nat} (hfresh : ∀ last, s.state = .live last → last ≤ seq)
      (hload : s.internalBook.load bids asks = (.ok (), book))
      (hreplay : replayPending s.pendingUpdates s.pending book seq = .tooOld firstBuffered) :
      SnapshotStep s seq bids asks (.error (.snapshotTooOld seq firstBuffered))
        { s with internalBook := book.clear, state := .awaitingSnapshot }
  | invalid {book : Book} {err : BookError} (hfresh : ∀ last, s.state = .live last → last ≤ seq)
      (hload : s.internalBook.load bids asks = (.ok (), book))
      (hreplay : replayPending s.pendingUpdates s.pending book seq = .invalid err) :
      SnapshotStep s seq bids asks (.error (.book err))
        ({ s with internalBook := book } : BookSync).invalidate
  | crossed {book book' : Book} {cursor : Nat} {bid ask : Price}
      (hfresh : ∀ last, s.state = .live last → last ≤ seq)
      (hload : s.internalBook.load bids asks = (.ok (), book))
      (hreplay : replayPending s.pendingUpdates s.pending book seq = .caughtUp book' cursor)
      (hcrossed : book'.isCrossed = true) :
      SnapshotStep s seq bids asks (.error (.crossed bid ask))
        ({ s with internalBook := book', state := .live cursor, pending := [],
                  pendingUpdates := [] } : BookSync).invalidate
  | used {book book' : Book} {cursor : Nat} (hfresh : ∀ last, s.state = .live last → last ≤ seq)
      (hload : s.internalBook.load bids asks = (.ok (), book))
      (hreplay : replayPending s.pendingUpdates s.pending book seq = .caughtUp book' cursor)
      (huncrossed : book'.isCrossed = false) :
      SnapshotStep s seq bids asks (.ok true)
        { s with internalBook := book', state := .live cursor, pending := [], pendingUpdates := [] }

theorem checkCrossed_cases (s : BookSync) :
    (s.internalBook.isCrossed = false ∧ s.checkCrossed = (.ok (), s)) ∨
      (s.internalBook.isCrossed = true ∧
        ∃ bid ask, s.checkCrossed = (.error (.crossed bid ask), s.invalidate)) := by
  unfold checkCrossed Book.isCrossed
  cases s.internalBook.bestBid with
  | none => left; exact ⟨rfl, rfl⟩
  | some bid =>
      cases s.internalBook.bestAsk with
      | none => left; exact ⟨rfl, rfl⟩
      | some ask =>
          dsimp only
          by_cases h : bid.price ≥ ask.price
          · right; exact ⟨decide_eq_true h, _, _, if_pos h⟩
          · left; exact ⟨decide_eq_false h, if_neg h⟩

theorem onDelta_step (s : BookSync) (range : SeqRange) (us : List LevelUpdate) :
    DeltaStep s range us (s.onDelta range us).1 (s.onDelta range us).2 := by
  unfold onDelta
  cases hstate : s.state with
  | awaitingSnapshot => exact .buffered hstate
  | live last =>
      dsimp only
      by_cases hold : range.last ≤ last
      · rw [if_pos hold]
        exact .stale hstate hold
      · rw [if_neg hold]
        have hnew : last < range.last := Nat.lt_of_not_le hold
        by_cases hcont : range.continues last = true
        · rw [if_neg (by simp [hcont])]
          have hfirst := (range.continues_iff last).mp hcont
          cases happly : s.internalBook.applyAll us with
          | mk res book =>
              cases res with
              | error err => exact .invalid hstate hnew hfirst happly
              | ok u =>
                  dsimp only
                  rcases checkCrossed_cases
                      { s with internalBook := book, state := .live range.last } with
                    ⟨hc, heq⟩ | ⟨hc, bid, ask, heq⟩
                  · rw [heq]; exact .applied hstate hnew hfirst happly hc
                  · rw [heq]; exact .crossed hstate hnew hfirst happly hc
        · rw [if_pos (by simp [hcont])]
          have hgap := mt (range.continues_iff last).mpr hcont
          exact .gap hstate hnew (by omega)

theorem useSnapshot_step {s : BookSync} {seq : Nat} (bids asks : List Level)
    (hfresh : ∀ last, s.state = .live last → last ≤ seq) :
    SnapshotStep s seq bids asks (s.useSnapshot seq bids asks).1
      (s.useSnapshot seq bids asks).2 := by
  unfold useSnapshot
  cases hload : s.internalBook.load bids asks with
  | mk res book =>
      cases res with
      | error err => exact .refused hfresh hload
      | ok u =>
          dsimp only
          cases hreplay : replayPending s.pendingUpdates s.pending book seq with
          | tooOld firstBuffered => exact .tooOld hfresh hload hreplay
          | invalid err => exact .invalid hfresh hload hreplay
          | caughtUp book' cursor =>
              dsimp only
              rcases checkCrossed_cases { s with internalBook := book', state := .live cursor,
                                                 pending := [], pendingUpdates := [] } with
                ⟨hc, heq⟩ | ⟨hc, bid, ask, heq⟩
              · rw [heq]; exact .used hfresh hload hreplay hc
              · rw [heq]; exact .crossed hfresh hload hreplay hc

theorem onSnapshot_step (s : BookSync) (seq : Nat) (bids asks : List Level) :
    SnapshotStep s seq bids asks (s.onSnapshot seq bids asks).1
      (s.onSnapshot seq bids asks).2 := by
  unfold onSnapshot
  cases hstate : s.state with
  | awaitingSnapshot => exact useSnapshot_step bids asks (by simp [hstate])
  | live last =>
      dsimp only
      by_cases hold : seq < last
      · rw [if_pos hold]
        exact .stale hstate hold
      · rw [if_neg hold]
        refine useSnapshot_step bids asks fun last' h => ?_
        rw [hstate] at h
        cases h
        omega

/-! ## §5 The invariant -/

/-- The representation invariant. `D` is what is known of the deltas given. -/
structure Inv (D : SeqRange → List LevelUpdate → Prop) (s : BookSync) : Prop where
  book : s.internalBook.Inv s.config.levelsPerSide
  ordered : s.Ordered D
  live : ∀ n, s.state = .live n →
    s.pending = [] ∧ s.pendingUpdates = [] ∧ s.internalBook.isCrossed = false
  awaiting : s.state = .awaitingSnapshot → s.internalBook = s.internalBook.clear

variable {D : SeqRange → List LevelUpdate → Prop} {s s' : BookSync}

theorem invalidate_inv (hbook : s.internalBook.Inv s.config.levelsPerSide)
    (hstorage : 0 < s.config.bufferedMessages) : s.invalidate.Inv D where
  book := Book.clear_inv hbook
  ordered := Buffered.nil hstorage
  live := by intro n h; cases h
  awaiting := by intro _; rfl

theorem buffer_inv (h : s.Inv D) (hstate : s.state = .awaitingSnapshot) {range : SeqRange}
    {us : List LevelUpdate} (hd : D range us) : (s.buffer range us).2.Inv D := by
  obtain ⟨hord, hbook, hst, hconfig⟩ := buffer_ordered h.ordered hd
  refine ⟨?_, hord, ?_, ?_⟩
  · rw [hbook, hconfig]; exact h.book
  · intro n hn; rw [hst, hstate] at hn; cases hn
  · intro _; rw [hbook]; exact h.awaiting hstate

theorem DeltaStep.inv {range : SeqRange} {us : List LevelUpdate}
    {res : Except SyncError DeltaOutcome} (hstep : DeltaStep s range us res s') (h : s.Inv D)
    (hd : D range us) : s'.Inv D := by
  have hbook := Book.applyAll_inv us h.book
  cases hstep with
  | buffered hstate => exact buffer_inv h hstate hd
  | stale hstate hold => exact ⟨h.book, h.ordered, h.live, h.awaiting⟩
  | gap hstate hnew hgap =>
      exact buffer_inv (invalidate_inv h.book h.ordered.storage) rfl hd
  | invalid hstate hnew hfirst happly =>
      rw [happly] at hbook
      exact invalidate_inv hbook h.ordered.storage
  | crossed hstate hnew hfirst happly hcrossed =>
      rw [happly] at hbook
      exact invalidate_inv hbook h.ordered.storage
  | applied hstate hnew hfirst happly huncrossed =>
      rw [happly] at hbook
      obtain ⟨hp, hu, _⟩ := h.live _ hstate
      exact ⟨hbook, h.ordered, fun n hn => ⟨hp, hu, huncrossed⟩, fun hn => by cases hn⟩

/-- Replaying the buffer keeps the book's invariant. -/
theorem replayPending_inv {updates : List LevelUpdate} {capacity : Nat} :
    ∀ (pending : List Pending) {book book' : Book} {seq cursor : Nat}, book.Inv capacity →
      replayPending updates pending book seq = .caughtUp book' cursor → book'.Inv capacity := by
  intro pending
  induction pending with
  | nil => intro book book' seq cursor hinv h; cases h; exact hinv
  | cons p rest ih =>
      intro book book' seq cursor hinv h
      rw [replayPending] at h
      split at h
      · exact ih hinv h
      · split at h
        · cases h
        · have hbook := Book.applyAll_inv (p.slice updates) hinv
          cases happly : book.applyAll (p.slice updates) with
          | mk res b =>
              rw [happly] at h hbook
              cases res with
              | error err => cases h
              | ok u => exact ih hbook h

theorem SnapshotStep.inv {seq : Nat} {bids asks : List Level} {res : Except SyncError Bool}
    (hstep : SnapshotStep s seq bids asks res s') (h : s.Inv D) : s'.Inv D := by
  have hbook := Book.load_inv h.book bids asks
  cases hstep with
  | stale hstate hold => exact h
  | refused hfresh hload =>
      rw [hload] at hbook
      exact invalidate_inv hbook h.ordered.storage
  | tooOld hfresh hload hreplay =>
      rw [hload] at hbook
      exact ⟨Book.clear_inv hbook, h.ordered, nofun, fun _ => rfl⟩
  | invalid hfresh hload hreplay =>
      rw [hload] at hbook
      exact invalidate_inv hbook h.ordered.storage
  | crossed hfresh hload hreplay hcrossed =>
      rw [hload] at hbook
      exact invalidate_inv (replayPending_inv _ hbook hreplay) h.ordered.storage
  | used hfresh hload hreplay huncrossed =>
      rw [hload] at hbook
      exact ⟨replayPending_inv _ hbook hreplay, Buffered.nil h.ordered.storage,
        fun n hn => ⟨rfl, rfl, huncrossed⟩, fun hn => by cases hn⟩

theorem new_inv {config : SyncConfig} (h : BookSync.new config = .ok s) :
    s.Inv D ∧ s.config = config ∧ s.state = .awaitingSnapshot := by
  unfold BookSync.new at h
  split at h
  · cases h
  · rename_i hsizes
    unfold Book.new at h
    cases hb : Ladder.new .buy config.levelsPerSide with
    | error err => simp [hb] at h
    | ok bids =>
        cases ha : Ladder.new .sell config.levelsPerSide with
        | error err => simp [hb, ha] at h
        | ok asks =>
            obtain ⟨hcap, rfl⟩ := (Ladder.new_ok_iff ..).mp hb
            obtain ⟨_, rfl⟩ := (Ladder.new_ok_iff ..).mp ha
            simp only [hb, ha, Except.ok.injEq] at h
            subst h
            have hladder : ∀ side, (⟨side, [], config.levelsPerSide, none⟩ : Ladder).Inv :=
              fun side => Ladder.clear_inv (l := ⟨side, [], config.levelsPerSide, none⟩) hcap
            refine ⟨⟨⟨?_, ?_, ?_⟩, Buffered.nil (by simp only; omega), nofun, fun _ => rfl⟩, rfl, rfl⟩
            all_goals intro side; cases side
            · exact hladder .buy
            · exact hladder .sell
            all_goals rfl

end BookSync

/-- A call on a sync. -/
inductive SyncCall where
  | delta (range : SeqRange) (updates : List LevelUpdate)
  | snapshot (seq : Nat) (bids asks : List Level)
  | reset
  deriving DecidableEq, Repr

namespace SyncCall

/-- The sync after a call. -/
def run (s : BookSync) : SyncCall → BookSync
  | .delta range updates => (s.onDelta range updates).2
  | .snapshot seq bids asks => (s.onSnapshot seq bids asks).2
  | .reset => s.reset

/-- The error a call returns, if any. -/
def error? (s : BookSync) : SyncCall → Option SyncError
  | .delta range updates =>
      match (s.onDelta range updates).1 with
      | .ok _ => none
      | .error err => some err
  | .snapshot seq bids asks =>
      match (s.onSnapshot seq bids asks).1 with
      | .ok _ => none
      | .error err => some err
  | .reset => none

/-- What is known of a call's delta, if it is one. -/
def DeltaIs (D : SeqRange → List LevelUpdate → Prop) : SyncCall → Prop
  | .delta range updates => D range updates
  | _ => True

variable {D : SeqRange → List LevelUpdate → Prop} {s : BookSync}

theorem run_inv (h : s.Inv D) {call : SyncCall} (hcall : call.DeltaIs D) : (call.run s).Inv D := by
  cases call with
  | delta range updates => exact (BookSync.onDelta_step s range updates).inv h hcall
  | snapshot seq bids asks => exact (BookSync.onSnapshot_step s seq bids asks).inv h
  | reset => exact BookSync.invalidate_inv h.book h.ordered.storage

end SyncCall

namespace BookSync

variable {D : SeqRange → List LevelUpdate → Prop} {s s' : BookSync}

theorem DeltaStep.config {range : SeqRange} {us : List LevelUpdate}
    {res : Except SyncError DeltaOutcome} (hstep : DeltaStep s range us res s')
    (h : s.Inv fun _ _ => True) : s'.config = s.config := by
  cases hstep with
  | buffered hstate => exact (buffer_ordered h.ordered trivial).2.2.2
  | gap hstate hnew hgap =>
      have hinv : s.invalidate.Inv fun _ _ => True := invalidate_inv h.book h.ordered.storage
      exact (buffer_ordered hinv.ordered trivial).2.2.2
  | _ => rfl

theorem SnapshotStep.config {seq : Nat} {bids asks : List Level} {res : Except SyncError Bool}
    (hstep : SnapshotStep s seq bids asks res s') : s'.config = s.config := by
  cases hstep <;> rfl

/-- Where a live sync comes from by a delta: it was live, and the delta was
stale or was applied in sequence. -/
theorem DeltaStep.live {range : SeqRange} {us : List LevelUpdate}
    {res : Except SyncError DeltaOutcome} (hstep : DeltaStep s range us res s') (h : s.Inv D)
    (hd : D range us) {n : Nat} (hn : s'.state = .live n) :
    (s.state = .live n ∧ range.last ≤ n ∧ s'.internalBook = s.internalBook) ∨
      ∃ last, s.state = .live last ∧ last < range.last ∧ range.first ≤ last + 1 ∧
        n = range.last ∧ s.internalBook.applyAll us = (.ok (), s'.internalBook) := by
  cases hstep with
  | buffered hstate =>
      rw [(buffer_ordered h.ordered hd).2.2.1, hstate] at hn
      cases hn
  | stale hstate hold =>
      have heq : s.state = .live n := hn
      rw [hstate] at heq
      cases heq
      exact Or.inl ⟨hstate, hold, rfl⟩
  | gap hstate hnew hgap =>
      have hinv : s.invalidate.Inv D := invalidate_inv h.book h.ordered.storage
      rw [(buffer_ordered hinv.ordered hd).2.2.1] at hn
      cases hn
  | invalid => cases hn
  | crossed => cases hn
  | applied hstate hnew hfirst happly huncrossed =>
      cases hn
      exact Or.inr ⟨_, hstate, hnew, hfirst, rfl, happly⟩

/-- Where a live sync comes from by a snapshot: it was stale for a live book,
or it was loaded and the buffer replayed onto it. -/
theorem SnapshotStep.live {seq : Nat} {bids asks : List Level} {res : Except SyncError Bool}
    (hstep : SnapshotStep s seq bids asks res s') {n : Nat} (hn : s'.state = .live n) :
    (s.state = .live n ∧ seq < n ∧ s' = s) ∨
      ∃ book, (∀ last, s.state = .live last → last ≤ seq) ∧
        s.internalBook.load bids asks = (.ok (), book) ∧
        replayPending s.pendingUpdates s.pending book seq = .caughtUp s'.internalBook n := by
  cases hstep with
  | stale hstate hold =>
      rw [hstate] at hn
      cases hn
      exact Or.inl ⟨hstate, hold, rfl⟩
  | refused => cases hn
  | tooOld => cases hn
  | invalid => cases hn
  | crossed => cases hn
  | used hfresh hload hreplay huncrossed =>
      cases hn
      exact Or.inr ⟨_, hfresh, hload, hreplay⟩

theorem isLive_iff (s : BookSync) : s.isLive = true ↔ ∃ n, s.state = .live n := by
  unfold isLive
  cases hstate : s.state with
  | awaitingSnapshot => simp
  | live n => simp

theorem isLive_of_state (h : s'.state = s.state) : s'.isLive = s.isLive := by
  unfold isLive
  rw [h]

theorem buffer_ne_applied (s : BookSync) (range : SeqRange) (us : List LevelUpdate) :
    (s.buffer range us).1 ≠ .applied := by
  unfold buffer
  split
  · split_ifs <;> nofun
  · nofun

/-- Whether a delta leaves the sync live, by its result. -/
theorem DeltaStep.isLive {range : SeqRange} {us : List LevelUpdate}
    {res : Except SyncError DeltaOutcome} (hstep : DeltaStep s range us res s') (h : s.Inv D)
    (hd : D range us) :
    (res = .ok .applied ∧ s.isLive = true ∧ s'.isLive = true) ∨
      ((∃ outcome, res = .ok outcome ∧ outcome ≠ .applied) ∧ s'.isLive = s.isLive) ∨
      ∃ err, res = .error err ∧ s.isLive = true ∧ s'.isLive = false := by
  have hlive : ∀ {last}, s.state = .live last → s.isLive = true :=
    fun hstate => (isLive_iff s).mpr ⟨_, hstate⟩
  cases hstep with
  | buffered hstate =>
      exact Or.inr (Or.inl ⟨⟨_, rfl, buffer_ne_applied s range us⟩,
        isLive_of_state (buffer_ordered h.ordered hd).2.2.1⟩)
  | stale hstate hold => exact Or.inr (Or.inl ⟨⟨_, rfl, nofun⟩, rfl⟩)
  | gap hstate hnew hgap =>
      have hinv : s.invalidate.Inv D := invalidate_inv h.book h.ordered.storage
      exact Or.inr (Or.inr ⟨_, rfl, hlive hstate,
        (isLive_of_state (buffer_ordered hinv.ordered hd).2.2.1).trans rfl⟩)
  | invalid hstate => exact Or.inr (Or.inr ⟨_, rfl, hlive hstate, rfl⟩)
  | crossed hstate => exact Or.inr (Or.inr ⟨_, rfl, hlive hstate, rfl⟩)
  | applied hstate => exact Or.inl ⟨rfl, hlive hstate, rfl⟩

/-- Whether a snapshot leaves the sync live, by its result. Only a sync with a
buffer can find a snapshot too old, and that one is not live. -/
theorem SnapshotStep.isLive {seq : Nat} {bids asks : List Level} {res : Except SyncError Bool}
    (hstep : SnapshotStep s seq bids asks res s') (h : s.Inv D) :
    (res = .ok true ∧ s'.isLive = true) ∨ (res = .ok false ∧ s' = s) ∨
      (∃ snapshot first, res = .error (.snapshotTooOld snapshot first) ∧ s.isLive = false ∧
        s'.isLive = false) ∨
      ∃ err, res = .error err ∧ (∀ snapshot first, err ≠ .snapshotTooOld snapshot first) ∧
        s'.isLive = false := by
  cases hstep with
  | stale => exact Or.inr (Or.inl ⟨rfl, rfl⟩)
  | refused => exact Or.inr (Or.inr (Or.inr ⟨_, rfl, nofun, rfl⟩))
  | tooOld hfresh hload hreplay =>
      refine Or.inr (Or.inr (Or.inl ⟨_, _, rfl, ?_, rfl⟩))
      unfold BookSync.isLive
      cases hstate : s.state with
      | awaitingSnapshot => rfl
      | live n =>
          rw [(h.live n hstate).1] at hreplay
          cases hreplay
  | invalid => exact Or.inr (Or.inr (Or.inr ⟨_, rfl, nofun, rfl⟩))
  | crossed => exact Or.inr (Or.inr (Or.inr ⟨_, rfl, nofun, rfl⟩))
  | used => exact Or.inl ⟨rfl, rfl⟩

/-- A live sync shows its book, which is not crossed. -/
theorem book_of_isLive (h : s.Inv D) (hlive : s.isLive = true) :
    s.book = some s.internalBook ∧ s.internalBook.isCrossed = false := by
  obtain ⟨n, hstate⟩ := (isLive_iff s).mp hlive
  exact ⟨by simp [book, hstate], (h.live n hstate).2.2⟩

theorem isLive_of_book {b : Book} (h : s.book = some b) :
    s.isLive = true ∧ b = s.internalBook := by
  unfold book at h
  cases hstate : s.state with
  | awaitingSnapshot => simp [hstate] at h
  | live n =>
      simp only [hstate, Option.some.injEq] at h
      exact ⟨(isLive_iff s).mpr ⟨n, hstate⟩, h.symm⟩

end BookSync

theorem BookSync.state_of_lastSeq {s : BookSync} {n : Nat} (h : s.lastSeq = some n) :
    s.state = .live n := by
  unfold BookSync.lastSeq at h
  cases hstate : s.state with
  | awaitingSnapshot => simp [hstate] at h
  | live last => simpa [hstate] using h

/-- Replaying a buffer never moves the sequence number back. -/
theorem replayPending_le {updates : List LevelUpdate} : ∀ (pending : List Pending)
    {book book' : Book} {seq cursor : Nat},
    replayPending updates pending book seq = .caughtUp book' cursor → seq ≤ cursor := by
  intro pending
  induction pending with
  | nil => intro book book' seq cursor h; cases h; exact le_refl _
  | cons p rest ih =>
      intro book book' seq cursor h
      rw [replayPending] at h
      split at h
      · exact ih h
      · rename_i hnew
        split at h
        · cases h
        · split at h
          · cases h
          · have := ih h
            omega

namespace SyncCall

variable {s : BookSync}

theorem run_config (h : s.Inv fun _ _ => True) (call : SyncCall) :
    (call.run s).config = s.config := by
  cases call with
  | delta range updates => exact (BookSync.onDelta_step s range updates).config h
  | snapshot seq bids asks => exact (BookSync.onSnapshot_step s seq bids asks).config
  | reset => rfl

/-- A sync that stays live never goes back. -/
theorem run_lastSeq_le (h : s.Inv fun _ _ => True) (call : SyncCall) {a b : Nat}
    (ha : s.lastSeq = some a) (hb : (call.run s).lastSeq = some b) : a ≤ b := by
  have ha := BookSync.state_of_lastSeq ha
  have hb := BookSync.state_of_lastSeq hb
  cases call with
  | delta range updates =>
      rcases (BookSync.onDelta_step s range updates).live h trivial hb with
        ⟨hs, _, _⟩ | ⟨last, hs, hnew, _, rfl, _⟩
      · rw [ha] at hs; cases hs; exact le_refl _
      · rw [ha] at hs; cases hs; exact le_of_lt hnew
  | snapshot seq bids asks =>
      rcases (BookSync.onSnapshot_step s seq bids asks).live hb with
        ⟨hs, _, _⟩ | ⟨book, hfresh, _, hreplay⟩
      · rw [ha] at hs; cases hs; exact le_refl _
      · exact le_trans (hfresh a ha) (replayPending_le _ hreplay)
  | reset => cases hb

/-- The invariant over a whole run, with any predicate the deltas satisfy. -/
theorem foldl_run_inv {D : SeqRange → List LevelUpdate → Prop} (calls : List SyncCall)
    (hcalls : ∀ call ∈ calls, call.DeltaIs D) (h : s.Inv D) : (calls.foldl run s).Inv D := by
  induction calls generalizing s with
  | nil => exact h
  | cons call calls ih =>
      exact ih (fun c hc => hcalls c (List.mem_cons_of_mem _ hc))
        (run_inv h (hcalls call (List.mem_cons_self ..)))

theorem deltaIs_true (call : SyncCall) : call.DeltaIs fun _ _ => True := by
  cases call <;> trivial

theorem foldl_run_config (calls : List SyncCall) (h : s.Inv fun _ _ => True) :
    (calls.foldl run s).config = s.config := by
  induction calls generalizing s with
  | nil => rfl
  | cons call calls ih => exact (ih (run_inv h (deltaIs_true call))).trans (run_config h call)

end SyncCall

/-- `SnapshotTooOld` comes from the first buffered message that ends after the
snapshot, before any buffered update is applied, and the buffer is kept. -/
theorem BookSync.SnapshotStep.too_old {s s' : BookSync} {seq : Nat} {bids asks : List Level}
    {snapshot firstBuffered : Nat} (h : s.Ordered fun _ _ => True)
    (hstep : s.SnapshotStep seq bids asks (.error (.snapshotTooOld snapshot firstBuffered)) s') :
    snapshot = seq ∧ s'.pending = s.pending ∧ s'.pendingUpdates = s.pendingUpdates ∧
      ∃ old m rest, s.pending = old ++ m :: rest ∧ m.range.first = firstBuffered ∧
        (∀ p ∈ old, p.range.last ≤ seq) ∧ seq < m.range.last ∧ seq + 1 < m.range.first ∧
        ∀ book, replayPending s.pendingUpdates old book seq = .caughtUp book seq := by
  cases hstep with
  | tooOld hfresh hload hreplay =>
      rename_i book
      rcases replayPending_spec book seq h.chained with ⟨m, hm, hfirst, heq⟩ | ⟨_, heq⟩
      · rw [hreplay] at heq
        cases heq
        obtain ⟨old, hsplit, hold, hhead⟩ := kept_split seq s.pending
        obtain ⟨rest, hrest⟩ := List.head?_eq_some_iff.mp hm
        refine ⟨rfl, rfl, rfl, old, m, rest, ?_, rfl, hold, hhead m hm, hfirst,
          fun b => replayPending_old _ b seq old hold⟩
        rw [← hrest]
        exact hsplit
      · -- A buffer that continues from the snapshot is applied or invalid.
        rw [hreplay] at heq
        split at heq <;> cases heq

/-- **The sync's representation invariant.** After any calls with any arguments
on a new sync: a live sync has an empty buffer and an uncrossed book of sorted,
positive, bounded sides; one waiting for a snapshot shows no book and holds
none; the buffer is bounded, chained and tiled; `SnapshotTooOld` comes from the
first message that ends after the snapshot and keeps the buffer; and
`lastSeq` never decreases while the sync stays live. -/
theorem sync_representation_invariant (config : SyncConfig) (s₀ : BookSync)
    (hnew : BookSync.new config = .ok s₀) (calls : List SyncCall) :
    let s := calls.foldl SyncCall.run s₀
    (s.isLive = true → s.pending = [] ∧ s.pendingUpdates = [] ∧ s.internalBook.isCrossed = false ∧
      ∀ side, (s.internalBook.side side).levels.Pairwise
          (fun a b => side.isMoreAggressive b.price a.price = true) ∧
        (∀ level ∈ (s.internalBook.side side).levels, 0 < level.price ∧ 0 < level.qty) ∧
        (s.internalBook.side side).len ≤ config.levelsPerSide) ∧
    (s.isLive = false → s.book = none ∧ ∀ side, (s.internalBook.side side).levels = []) ∧
    s.pending.length ≤ config.bufferedMessages ∧
    s.pendingUpdates.length ≤ config.bufferedUpdates ∧
    s.pending.IsChain (fun prev next =>
      next.range.first ≤ prev.range.last + 1 ∧ prev.range.last < next.range.last) ∧
    Tiles 0 s.pending s.pendingUpdates.length ∧
    (∀ seq bids asks snapshot firstBuffered,
      (s.onSnapshot seq bids asks).1 = .error (.snapshotTooOld snapshot firstBuffered) →
      snapshot = seq ∧ (s.onSnapshot seq bids asks).2.pending = s.pending ∧
        (s.onSnapshot seq bids asks).2.pendingUpdates = s.pendingUpdates ∧
        ∃ old m rest, s.pending = old ++ m :: rest ∧ m.range.first = firstBuffered ∧
          (∀ p ∈ old, p.range.last ≤ seq) ∧ seq < m.range.last ∧ seq + 1 < m.range.first ∧
          ∀ book, replayPending s.pendingUpdates old book seq = .caughtUp book seq) ∧
    (∀ (call : SyncCall) (a b : Nat), s.lastSeq = some a → (call.run s).lastSeq = some b →
      a ≤ b) := by
  obtain ⟨hinv₀, hconfig₀, _⟩ := BookSync.new_inv (D := fun _ _ => True) hnew
  have hinv := SyncCall.foldl_run_inv calls (fun call _ => call.deltaIs_true) hinv₀
  have hconfig := (SyncCall.foldl_run_config calls hinv₀).trans hconfig₀
  intro s
  change s.Inv _ at hinv
  change s.config = config at hconfig
  have hbook := hinv.book
  have hordered := hinv.ordered
  rw [hconfig] at hbook
  unfold BookSync.Ordered at hordered
  rw [hconfig] at hordered
  refine ⟨?_, ?_, hordered.messages, hordered.room, hordered.chained, hordered.tiles, ?_,
    fun call a b => SyncCall.run_lastSeq_le hinv call⟩
  · intro hlive
    cases hstate : s.state with
    | awaitingSnapshot => simp [BookSync.isLive, hstate] at hlive
    | live n =>
        obtain ⟨hp, hu, hc⟩ := hinv.live n hstate
        refine ⟨hp, hu, hc, fun side => ⟨?_, (hbook.ladder side).positive, ?_⟩⟩
        · refine (hbook.ladder side).sorted.imp fun hlt => ?_
          rw [Side.isMoreAggressive_iff]
          unfold Ladder.levelKey at hlt
          rwa [hbook.sided side] at hlt
        · exact le_of_le_of_eq (hbook.ladder side).bounded (hbook.sized side)
  · intro hlive
    cases hstate : s.state with
    | live n => simp [BookSync.isLive, hstate] at hlive
    | awaitingSnapshot =>
        refine ⟨by simp [BookSync.book, hstate], fun side => ?_⟩
        rw [hinv.awaiting hstate, Book.side_clear]
        rfl
  · intro seq bids asks snapshot firstBuffered herr
    have hstep := BookSync.onSnapshot_step s seq bids asks
    rw [herr] at hstep
    exact hstep.too_old hinv.ordered

/-- A gap buffers its delta; an older snapshot is refused, a newer one is used. -/
theorem sync_representation_invariant_after_gap :
    let config : SyncConfig := ⟨2, 4, 8⟩
    let s₀ : BookSync := ⟨⟨⟨.buy, [], 2, none⟩, ⟨.sell, [], 2, none⟩⟩, .awaitingSnapshot, [], [],
      config, ⟨0, 0, 0⟩⟩
    let calls : List SyncCall := [.snapshot 1 [⟨100, 1⟩] [⟨101, 1⟩],
      .delta ⟨5, 6, by decide, by decide⟩ [⟨.buy, 99, 1⟩]]
    let s := calls.foldl SyncCall.run s₀
    BookSync.new config = .ok s₀ ∧ s.pending.length = 1 ∧
      (s.onSnapshot 3 [] []).1 = .error (.snapshotTooOld 3 5) ∧
      (s.onSnapshot 3 [] []).2.pending = s.pending := by
  intro config s₀ calls s
  have hnew : BookSync.new config = .ok s₀ := rfl
  have herr : (s.onSnapshot 3 [] []).1 = .error (.snapshotTooOld 3 5) := by decide
  refine ⟨hnew, by decide, herr, ?_⟩
  exact ((sync_representation_invariant config s₀ hnew calls).2.2.2.2.2.2.1 3 [] [] 3 5 herr).2.1

end Bowst.L2
