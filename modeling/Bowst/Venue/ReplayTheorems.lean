/-
Bowst.Venue.ReplayTheorems — a replay does what the live session did.

  §1 Counters — what a sync does does not depend on its counters.
  §2 InStep   — the live books and the replay's: equal but for counters, and for a
                verification that only the live session abandoned.
-/
import Bowst.Venue.DescriptionTheorems
import Bowst.Venue.HandlerTheorems
import Bowst.Venue.SessionTheorems

namespace Bowst.Venue

open Bowst.Lib Bowst.Core Bowst.L2 Bowst.Journal

/-! ## §1 Counters -/

/-- The sync with other counters. -/
def withStats (s : BookSync) (stats : SyncStats) : BookSync := { s with stats }

/-- Equal but for the counters. -/
def Alike (s s' : BookSync) : Prop := ∃ stats, s' = withStats s stats

section Fields

variable (s : BookSync) (stats : SyncStats)

@[simp] theorem withStats_internalBook : (withStats s stats).internalBook = s.internalBook := rfl
@[simp] theorem withStats_state : (withStats s stats).state = s.state := rfl
@[simp] theorem withStats_pending : (withStats s stats).pending = s.pending := rfl
@[simp] theorem withStats_pendingUpdates :
    (withStats s stats).pendingUpdates = s.pendingUpdates := rfl
@[simp] theorem withStats_config : (withStats s stats).config = s.config := rfl

end Fields

variable {s s' : BookSync}

theorem Alike.refl (s : BookSync) : Alike s s := ⟨s.stats, rfl⟩

theorem pushUpdates_withStats : ∀ (us : List LevelUpdate) (s : BookSync) (stats : SyncStats),
    ((withStats s stats).pushUpdates us).1 = (s.pushUpdates us).1 ∧
      Alike (s.pushUpdates us).2 ((withStats s stats).pushUpdates us).2 := by
  intro us
  induction us with
  | nil => intro s stats; exact ⟨rfl, stats, rfl⟩
  | cons u us ih =>
      intro s stats
      unfold BookSync.pushUpdates
      rw [withStats_pendingUpdates, withStats_config]
      by_cases hfull : s.pendingUpdates.length ≥ s.config.bufferedUpdates
      · rw [if_pos hfull, if_pos hfull]
        exact ⟨rfl, _, rfl⟩
      · rw [if_neg hfull, if_neg hfull]
        exact ih { s with pendingUpdates := s.pendingUpdates ++ [u] } stats

/-- What `store` does from the place in the buffer where the message starts. -/
def storeFrom (range : SeqRange) (us : List LevelUpdate) (s : BookSync) (start : Nat) : BookSync :=
  match s.pushUpdates us with
  | (false, s') => s'
  | (true, s') =>
      { s' with pending := s'.pending ++ [⟨range, start, s'.pendingUpdates.length - start⟩] }

theorem storeFrom_alike (h : Alike s s') (range : SeqRange) (us : List LevelUpdate) (start : Nat) :
    Alike (storeFrom range us s start) (storeFrom range us s' start) := by
  obtain ⟨stats, rfl⟩ := h
  obtain ⟨hres, stats', hsync⟩ := pushUpdates_withStats us s stats
  unfold storeFrom
  generalize s.pushUpdates us = kept at hres hsync ⊢
  generalize (withStats s stats).pushUpdates us = kept' at hres hsync ⊢
  obtain ⟨pushed, t⟩ := kept
  obtain ⟨pushed', t'⟩ := kept'
  obtain rfl : pushed' = pushed := hres
  obtain rfl : t' = withStats t stats' := hsync
  cases pushed' <;> exact ⟨stats', rfl⟩

theorem store_alike (h : Alike s s') (range : SeqRange) (us : List LevelUpdate) :
    Alike (s.store range us) (s'.store range us) := by
  obtain ⟨stats, rfl⟩ := h
  unfold BookSync.store
  rw [withStats_pending, withStats_config]
  by_cases hfull : s.pending.length ≥ s.config.bufferedMessages
  · rw [if_pos hfull, if_pos hfull]
    exact storeFrom_alike ⟨_, rfl⟩ range us _
  · rw [if_neg hfull, if_neg hfull]
    exact storeFrom_alike ⟨stats, rfl⟩ range us _

theorem buffer_alike (h : Alike s s') (range : SeqRange) (us : List LevelUpdate) :
    (s'.buffer range us).1 = (s.buffer range us).1 ∧
      Alike (s.buffer range us).2 (s'.buffer range us).2 := by
  obtain ⟨stats, rfl⟩ := h
  unfold BookSync.buffer
  rw [withStats_pending]
  split
  · split
    · exact ⟨rfl, _, rfl⟩
    · split
      · exact ⟨rfl, store_alike ⟨_, rfl⟩ range us⟩
      · exact ⟨rfl, store_alike ⟨stats, rfl⟩ range us⟩
  · exact ⟨rfl, store_alike ⟨stats, rfl⟩ range us⟩

theorem invalidate_alike (h : Alike s s') : Alike s.invalidate s'.invalidate := by
  obtain ⟨stats, rfl⟩ := h
  exact ⟨_, rfl⟩

theorem checkCrossed_alike (h : Alike s s') :
    s'.checkCrossed.1 = s.checkCrossed.1 ∧ Alike s.checkCrossed.2 s'.checkCrossed.2 := by
  obtain ⟨stats, rfl⟩ := h
  unfold BookSync.checkCrossed
  rw [withStats_internalBook]
  split
  · split
    · exact ⟨rfl, invalidate_alike ⟨stats, rfl⟩⟩
    · exact ⟨rfl, stats, rfl⟩
  · exact ⟨rfl, stats, rfl⟩

/-- The end of `on_delta` and of `on_snapshot`, when a book was built. -/
theorem checkCrossed_match_alike {α : Type} (h : Alike s s') (x : α) :
    (match s'.checkCrossed with
      | (.error err, t) => (.error err, t)
      | (.ok (), t) => (.ok x, t) : Except SyncError α × BookSync).1 =
    (match s.checkCrossed with
      | (.error err, t) => (.error err, t)
      | (.ok (), t) => (.ok x, t) : Except SyncError α × BookSync).1 ∧
    Alike
      (match s.checkCrossed with
        | (.error err, t) => (.error err, t)
        | (.ok (), t) => (.ok x, t) : Except SyncError α × BookSync).2
      (match s'.checkCrossed with
        | (.error err, t) => (.error err, t)
        | (.ok (), t) => (.ok x, t) : Except SyncError α × BookSync).2 := by
  obtain ⟨hres, halike⟩ := checkCrossed_alike h
  generalize s.checkCrossed = checked at hres halike ⊢
  generalize s'.checkCrossed = checked' at hres halike ⊢
  obtain ⟨res, t⟩ := checked
  obtain ⟨res', t'⟩ := checked'
  obtain rfl : res' = res := hres
  cases res' with
  | ok _ => exact ⟨rfl, halike⟩
  | error err => exact ⟨rfl, halike⟩

theorem onDelta_alike (h : Alike s s') (range : SeqRange) (us : List LevelUpdate) :
    (s'.onDelta range us).1 = (s.onDelta range us).1 ∧
      Alike (s.onDelta range us).2 (s'.onDelta range us).2 := by
  obtain ⟨stats, rfl⟩ := h
  have halike : Alike s (withStats s stats) := ⟨stats, rfl⟩
  unfold BookSync.onDelta
  rw [withStats_state, withStats_internalBook]
  split
  · obtain ⟨hres, hsync⟩ := buffer_alike halike range us
    exact ⟨congrArg Except.ok hres, hsync⟩
  · split
    · exact ⟨rfl, _, rfl⟩
    · split
      · exact ⟨rfl, (buffer_alike (invalidate_alike halike) range us).2⟩
      · split
        · exact ⟨rfl, invalidate_alike ⟨stats, rfl⟩⟩
        · rename_i book _
          exact checkCrossed_match_alike
            (s := { s with internalBook := book, state := .live range.last }) ⟨stats, rfl⟩
            DeltaOutcome.applied

theorem useSnapshot_alike (h : Alike s s') (seq : Nat) (bids asks : List Level) :
    (s'.useSnapshot seq bids asks).1 = (s.useSnapshot seq bids asks).1 ∧
      Alike (s.useSnapshot seq bids asks).2 (s'.useSnapshot seq bids asks).2 := by
  obtain ⟨stats, rfl⟩ := h
  unfold BookSync.useSnapshot
  rw [withStats_internalBook, withStats_pendingUpdates, withStats_pending]
  split
  · exact ⟨rfl, invalidate_alike ⟨stats, rfl⟩⟩
  · split
    · exact ⟨rfl, stats, rfl⟩
    · exact ⟨rfl, invalidate_alike ⟨stats, rfl⟩⟩
    · rename_i book cursor _
      exact checkCrossed_match_alike
        (s := { s with internalBook := book, state := .live cursor, pending := [],
                       pendingUpdates := [] }) ⟨stats, rfl⟩ true

theorem onSnapshot_alike (h : Alike s s') (seq : Nat) (bids asks : List Level) :
    (s'.onSnapshot seq bids asks).1 = (s.onSnapshot seq bids asks).1 ∧
      Alike (s.onSnapshot seq bids asks).2 (s'.onSnapshot seq bids asks).2 := by
  have huse := useSnapshot_alike h seq bids asks
  obtain ⟨stats, rfl⟩ := h
  unfold BookSync.onSnapshot
  rw [withStats_state]
  split
  · split
    · exact ⟨rfl, stats, rfl⟩
    · exact huse
  · exact huse

/-- What is read of a sync. -/
theorem Alike.read (h : Alike s s') :
    s'.book = s.book ∧ s'.lastSeq = s.lastSeq ∧ s'.isLive = s.isLive := by
  obtain ⟨stats, rfl⟩ := h
  exact ⟨rfl, rfl, rfl⟩

/-- A cleared book is empty. -/
theorem clear_eq {b : Book} {capacity : Nat} (h : b.Inv capacity) :
    b.clear = ⟨⟨.buy, [], capacity, none⟩, ⟨.sell, [], capacity, none⟩⟩ := by
  obtain ⟨bids, asks⟩ := b
  have hb : bids.side = .buy := h.sided .buy
  have ha : asks.side = .sell := h.sided .sell
  have hbc : bids.capacity = capacity := h.sized .buy
  have hac : asks.capacity = capacity := h.sized .sell
  simp [Book.clear, Ladder.clear, hb, ha, hbc, hac]

/-- All syncs of one configuration are alike after a reset. -/
theorem reset_alike (h : s.Inv fun _ _ => True) (h' : s'.Inv fun _ _ => True)
    (hconfig : s'.config = s.config) : Alike s.reset s'.reset := by
  have hbook : s'.internalBook.clear = s.internalBook.clear := by
    rw [clear_eq h.book, clear_eq h'.book, hconfig]
  refine ⟨s'.reset.stats, ?_⟩
  simp only [BookSync.reset, BookSync.invalidate, withStats, hbook, hconfig]

/-! ## §2 InStep -/

/-- The verification of the live session and that of the replay: the same one, or
one that only the live session abandoned, before a snapshot was loaded. -/
def ShadowInStep (live replayed : Shadow) : Prop :=
  (replayed.instrument = live.instrument ∧ replayed.loaded = live.loaded ∧
    Alike live.sync replayed.sync) ∨
  (live.instrument = none ∧ replayed.loaded = false)

/-- The books of the live session and those of the replay. -/
def InStep (live replayed : MdBooks) : Prop :=
  ∃ stats shadow, replayed = { live with stats, shadow } ∧ ShadowInStep live.shadow shadow

namespace InStep

open MdBooks

variable {b b' : MdBooks} {i : InstrumentId}

theorem sync?_eq (h : InStep b b') : b'.sync? i = b.sync? i := by
  obtain ⟨stats, shadow, rfl, _⟩ := h
  rfl

theorem book_eq (h : InStep b b') : b'.book i = b.book i := by rw [book, book, h.sync?_eq]

theorem report_eq (h : InStep b b') (applied : Applied) : b'.report applied = b.report applied := by
  cases applied with
  | quiet => rfl
  | book i time => simp only [report, h.book_eq]
  | down i reason => rfl

theorem setSync (h : InStep b b') (i : InstrumentId) (s : BookSync) :
    InStep (b.setSync i s) (b'.setSync i s) := by
  obtain ⟨stats, shadow, rfl, hshadow⟩ := h
  exact ⟨stats, shadow, rfl, hshadow⟩

/-- Counters may differ. -/
theorem stats (h : InStep b b') (stats stats' : MdStats) :
    InStep { b with stats } { b' with stats := stats' } := by
  obtain ⟨_, shadow, rfl, hshadow⟩ := h
  exact ⟨stats', shadow, rfl, hshadow⟩

/-- Only the live session ends a verification without a snapshot. -/
theorem cancel_live (h : InStep b b') (hloaded : b.shadow.loaded = false) :
    InStep b.cancelVerification b' := by
  obtain ⟨stats, shadow, rfl, hshadow⟩ := h
  unfold cancelVerification
  split
  · refine ⟨stats, shadow, rfl, .inr ⟨rfl, ?_⟩⟩
    rcases hshadow with ⟨_, hsame, _⟩ | ⟨_, hfalse⟩
    · exact hsame.trans hloaded
    · exact hfalse
  · exact ⟨stats, shadow, rfl, hshadow⟩

/-- The replay ends a verification that the live session has already abandoned. -/
theorem cancel_replayed (h : InStep b b') (hnone : b.shadow.instrument = none)
    (hloaded : b'.shadow.loaded = false) : InStep b b'.cancelVerification := by
  obtain ⟨stats, shadow, rfl, hshadow⟩ := h
  unfold cancelVerification
  split
  · exact ⟨stats, _, rfl, .inr ⟨hnone, rfl⟩⟩
  · exact ⟨stats, shadow, rfl, .inr ⟨hnone, hloaded⟩⟩

theorem cancel (h : InStep b b') : InStep b.cancelVerification b'.cancelVerification := by
  obtain ⟨stats, shadow, rfl, hshadow⟩ := h
  rcases hshadow with ⟨hsame, hloaded, hsync⟩ | ⟨hnone, hfalse⟩
  · unfold cancelVerification
    rw [show ({ b with stats, shadow } : MdBooks).shadow.instrument = b.shadow.instrument from hsame]
    split
    · exact ⟨stats, _, rfl, .inr ⟨rfl, rfl⟩⟩
    · exact ⟨stats, shadow, rfl, .inl ⟨hsame, hloaded, hsync⟩⟩
  · have hlive : b.cancelVerification = b := by
      rw [cancelVerification, hnone]
      rfl
    rw [hlive]
    exact cancel_replayed ⟨stats, shadow, rfl, .inr ⟨hnone, hfalse⟩⟩ hnone hfalse

/-- Both compare the same books, or neither compares. -/
theorem compared_iff (h : InStep b b') {live : BookSync} {n : Nat} :
    b'.Compared i live n ↔ b.Compared i live n := by
  obtain ⟨stats, shadow, rfl, hshadow⟩ := h
  rcases hshadow with ⟨hsame, hloaded, hsync⟩ | ⟨hnone, hfalse⟩
  · have hseq := hsync.read.2.1
    constructor
    · intro hc
      exact ⟨hsame.symm.trans hc.verifying, hloaded.symm.trans hc.loaded, hc.sync, hc.live,
        hseq.symm.trans hc.rebuilt⟩
    · intro hc
      exact ⟨hsame.trans hc.verifying, hloaded.trans hc.loaded, hc.sync, hc.live,
        hseq.trans hc.rebuilt⟩
  · constructor
    · intro hc
      exact absurd (hfalse.symm.trans hc.loaded) nofun
    · intro hc
      exact absurd (hnone.symm.trans hc.verifying) nofun

theorem verdict_eq (h : InStep b b') {live : BookSync} {n : Nat} (hc : b.Compared i live n) :
    verdict live b'.shadow.sync n = verdict live b.shadow.sync n := by
  obtain ⟨stats, shadow, rfl, ⟨_, _, hsync⟩ | ⟨hnone, _⟩⟩ := h
  · rw [verdict, verdict, hsync.read.1]
  · exact absurd (hnone.symm.trans hc.verifying) nofun

theorem settleVerdict (h : InStep b b') (i : InstrumentId) (m : Option Mismatch) :
    (b'.settleVerdict i m).1 = (b.settleVerdict i m).1 ∧
      InStep (b.settleVerdict i m).2 (b'.settleVerdict i m).2 := by
  cases m with
  | none => exact ⟨rfl, h.cancel.stats _ _⟩
  | some m =>
      have hended : InStep b.cancelVerification.countMismatch.countInvalidation
          b'.cancelVerification.countMismatch.countInvalidation := h.cancel.stats _ _
      refine ⟨rfl, ?_⟩
      simp only [MdBooks.settleVerdict, hended.sync?_eq]
      split
      · exact hended.setSync i _
      · exact hended

/-- Both come to the same verdict. -/
theorem settleVerification (h : InStep b b') :
    b'.settleVerification.1 = b.settleVerification.1 ∧
      InStep b.settleVerification.2 b'.settleVerification.2 := by
  by_cases hcompared : ∃ i live n, b.Compared i live n
  · obtain ⟨i, live, n, hc⟩ := hcompared
    rw [settleVerification_eq hc, settleVerification_eq (h.compared_iff.mpr hc), h.verdict_eq hc]
    exact h.settleVerdict i _
  · have hwaiting : ∀ i live n, ¬ b.Compared i live n :=
      fun i live n hc => hcompared ⟨i, live, n, hc⟩
    rw [settleVerification_waiting hwaiting,
      settleVerification_waiting fun i live n hc => hwaiting i live n (h.compared_iff.mp hc)]
    exact ⟨rfl, h⟩

/-- The part of `apply` about the verification book, after a delta that changed no
live book. -/
theorem feed (h : InStep b b') (update : DepthUpdate) :
    InStep (if decide (b.shadow.instrument = some update.instrument) then b.feedShadow update else b)
      (if decide (b'.shadow.instrument = some update.instrument) then b'.feedShadow update
        else b') := by
  obtain ⟨stats, shadow, rfl, ⟨hsame, hloaded, hsync⟩ | ⟨hnone, hfalse⟩⟩ := h
  · rw [show ({ b with stats, shadow } : MdBooks).shadow.instrument = b.shadow.instrument from hsame]
    split
    · exact ⟨stats, _, rfl, .inl ⟨hsame, hloaded, (onDelta_alike hsync _ _).2⟩⟩
    · exact ⟨stats, shadow, rfl, .inl ⟨hsame, hloaded, hsync⟩⟩
  · rw [if_neg (show ¬ decide (b.shadow.instrument = some update.instrument) = true by simp [hnone])]
    split
    · exact ⟨stats, _, rfl, .inr ⟨hnone, hfalse⟩⟩
    · exact ⟨stats, shadow, rfl, .inr ⟨hnone, hfalse⟩⟩

/-- The same after a gap or invalid data. -/
theorem cancelVerifying (h : InStep b b') (i : InstrumentId) :
    InStep (if decide (b.shadow.instrument = some i) then b.cancelVerification else b)
      (if decide (b'.shadow.instrument = some i) then b'.cancelVerification else b') := by
  obtain ⟨stats, shadow, rfl, hshadow⟩ := h
  have hstep : InStep b { b with stats, shadow } := ⟨stats, shadow, rfl, hshadow⟩
  rcases hshadow with ⟨hsame, hloaded, hsync⟩ | ⟨hnone, hfalse⟩
  · rw [show ({ b with stats, shadow } : MdBooks).shadow.instrument = b.shadow.instrument from hsame]
    split
    · exact hstep.cancel
    · exact hstep
  · rw [if_neg (show ¬ decide (b.shadow.instrument = some i) = true by simp [hnone])]
    split
    · exact hstep.cancel_replayed hnone hfalse
    · exact hstep

/-- The same after a delta that changed a live book. -/
theorem fedVerdict (h : InStep b b') (update : DepthUpdate) :
    (if decide (b'.shadow.instrument = some update.instrument) then
        (b'.feedShadow update).settleVerification else (none, b')).1 =
      (if decide (b.shadow.instrument = some update.instrument) then
        (b.feedShadow update).settleVerification else (none, b)).1 ∧
    InStep
      (if decide (b.shadow.instrument = some update.instrument) then
        (b.feedShadow update).settleVerification else (none, b)).2
      (if decide (b'.shadow.instrument = some update.instrument) then
        (b'.feedShadow update).settleVerification else (none, b')).2 := by
  have hfed := h.feed update
  obtain ⟨stats, shadow, rfl, ⟨hsame, hloaded, hsync⟩ | ⟨hnone, hfalse⟩⟩ := h
  · rw [show ({ b with stats, shadow } : MdBooks).shadow.instrument = b.shadow.instrument from hsame]
      at hfed ⊢
    split <;> rename_i hverifying
    · rw [if_pos hverifying, if_pos hverifying] at hfed
      exact hfed.settleVerification
    · rw [if_neg hverifying, if_neg hverifying] at hfed
      exact ⟨rfl, hfed⟩
  · rw [if_neg (show ¬ decide (b.shadow.instrument = some update.instrument) = true by simp [hnone])]
      at hfed ⊢
    split <;> rename_i hverifying
    · rw [if_pos hverifying] at hfed
      have hsettled := hfed.settleVerification
      rw [show b.settleVerification = (none, b) by rw [MdBooks.settleVerification, hnone]]
        at hsettled
      exact hsettled
    · rw [if_neg hverifying] at hfed
      exact ⟨rfl, hfed⟩

/-- What `apply` makes of a verdict on an applied delta. -/
def ofVerdict (update : DepthUpdate) (settled : Option Mismatch × MdBooks) :
    Except String Applied × MdBooks :=
  (.ok (settled.1.elim (.book update.instrument update.eventTime) fun m =>
    .down update.instrument (.mismatch m)), settled.2)

theorem applyUpdate_applied {s s' : BookSync} {update : DepthUpdate}
    (hsync : b.sync? update.instrument = some s)
    (hdelta : s.onDelta update.range update.updates = (.ok .applied, s')) :
    b.applyUpdate update = ofVerdict update
      (if decide (b.shadow.instrument = some update.instrument) then
        ((b.setSync update.instrument s').countDelta.feedShadow update).settleVerification
      else (none, (b.setSync update.instrument s').countDelta)) := by
  unfold applyUpdate
  rw [hsync]
  dsimp only
  rw [hdelta]
  by_cases hverifying : b.shadow.instrument = some update.instrument
  · simp only [shadow_setSync, hverifying, decide_true, if_true]
    split <;> rename_i hsettled <;> rw [hsettled] <;> rfl
  · simp only [shadow_setSync, hverifying, decide_false, Bool.false_eq_true, if_false]
    rfl

/-- A decoded message. -/
theorem applyUpdate (h : InStep b b') (update : DepthUpdate) :
    (b'.applyUpdate update).1 = (b.applyUpdate update).1 ∧
      InStep (b.applyUpdate update).2 (b'.applyUpdate update).2 := by
  have hsync' := h.sync?_eq (i := update.instrument)
  cases hsync : b.sync? update.instrument with
  | none =>
      rw [hsync] at hsync'
      simp only [MdBooks.applyUpdate, hsync, hsync']
      exact ⟨trivial, h⟩
  | some s =>
      rw [hsync] at hsync'
      cases hdelta : s.onDelta update.range update.updates with
      | mk res s₁ =>
          have hset := h.setSync update.instrument s₁
          have happlied := (hset.stats (b.setSync update.instrument s₁).countDelta.stats
            (b'.setSync update.instrument s₁).countDelta.stats).fedVerdict update
          have hfed := hset.feed update
          have hended := (hset.cancelVerifying update.instrument).stats
          cases res with
          | error err =>
              simp only [MdBooks.applyUpdate, hsync, hsync', hdelta]
              exact ⟨trivial, hended _ _⟩
          | ok outcome =>
              cases outcome with
              | applied =>
                  rw [applyUpdate_applied hsync hdelta, applyUpdate_applied hsync' hdelta]
                  exact ⟨congrArg (fun m => Except.ok (Option.elim m _ _)) happlied.1, happlied.2⟩
              | buffered | stale =>
                  simp only [MdBooks.applyUpdate, hsync, hsync', hdelta]
                  exact ⟨trivial, hfed⟩

/-- A message. -/
theorem apply (h : InStep b b') (bytes : Bytes) :
    (b'.apply bytes).1 = (b.apply bytes).1 ∧ InStep (b.apply bytes).2 (b'.apply bytes).2 := by
  have hcount : InStep b.countMessage b'.countMessage := h.stats _ _
  have hdecode : decodeUpdate b'.countMessage.instruments b'.countMessage.maxLevelsPerMessage bytes =
      decodeUpdate b.countMessage.instruments b.countMessage.maxLevelsPerMessage bytes := by
    obtain ⟨stats, shadow, rfl, _⟩ := h
    rfl
  simp only [MdBooks.apply, hdecode]
  split
  · exact ⟨rfl, hcount⟩
  · exact hcount.applyUpdate _

theorem onMessage_eq (b : MdBooks) (bytes : Bytes) : b.onMessage bytes =
    ((b.apply bytes).1, (b.apply bytes).2,
      match (b.apply bytes).1 with
      | .ok applied => (b.apply bytes).2.report applied
      | .error _ => []) := by
  unfold onMessage
  split <;> rename_i happly <;> rw [happly]

/-- What a snapshot changes and tells. -/
theorem settle (h : InStep b b') (i : InstrumentId) (res : Except SyncError Bool × BookSync)
    (time : WallTime) : (b'.settle i res time).2.2 = (b.settle i res time).2.2 ∧
      InStep (b.settle i res time).2.1 (b'.settle i res time).2.1 := by
  have hset := h.setSync i res.2
  unfold MdBooks.settle
  dsimp only
  split
  · split
    · exact ⟨rfl, hset.stats _ _⟩
    · exact ⟨rfl, hset⟩
  · exact ⟨rfl, hset⟩
  · exact ⟨rfl, hset⟩
  · exact ⟨rfl, hset.stats _ _⟩

/-- A snapshot. -/
theorem onSnapshot (h : InStep b b') (i : InstrumentId) (snap : DepthSnapshot) (time : WallTime) :
    (b'.onSnapshot i snap time).2.2 = (b.onSnapshot i snap time).2.2 ∧
      InStep (b.onSnapshot i snap time).2.1 (b'.onSnapshot i snap time).2.1 := by
  simp only [MdBooks.onSnapshot, h.sync?_eq]
  split
  · exact ⟨rfl, h⟩
  · exact h.settle i _ time

/-- The start of a verification. -/
theorem startVerification (h : InStep b b') (hreset : Alike b.shadow.sync.reset b'.shadow.sync.reset)
    (i : InstrumentId) : InStep (b.startVerification i).2 (b'.startVerification i).2 := by
  have hlive : b'.isLive i = b.isLive i := by rw [isLive, isLive, h.sync?_eq]
  simp only [MdBooks.startVerification, hlive]
  split
  · exact h
  · obtain ⟨stats, shadow, rfl, _⟩ := h
    exact ⟨stats, _, rfl, .inl ⟨rfl, rfl, hreset⟩⟩

theorem afterVerificationSnapshot (h : InStep b b')
    (hloaded : InStep { b with shadow := { b.shadow with loaded := true } }
      { b' with shadow := { b'.shadow with loaded := true } }) (i : InstrumentId) (loaded : Bool) :
    (b'.afterVerificationSnapshot i loaded).2.2 = (b.afterVerificationSnapshot i loaded).2.2 ∧
      InStep (b.afterVerificationSnapshot i loaded).2.1
        (b'.afterVerificationSnapshot i loaded).2.1 := by
  obtain ⟨hres, hstep⟩ := hloaded.settleVerification
  unfold MdBooks.afterVerificationSnapshot
  split
  · exact ⟨rfl, h.cancel⟩
  · dsimp only
    generalize ({ b with shadow := { b.shadow with loaded := true } } :
      MdBooks).settleVerification = settled at hres hstep ⊢
    generalize ({ b' with shadow := { b'.shadow with loaded := true } } :
      MdBooks).settleVerification = settled' at hres hstep ⊢
    obtain ⟨m, b₁⟩ := settled
    obtain ⟨m', b₁'⟩ := settled'
    obtain rfl : m' = m := hres
    cases m' with
    | none => exact ⟨rfl, hstep⟩
    | some m => exact ⟨rfl, hstep⟩

/-- A verification snapshot, while the live session verifies. -/
theorem onVerificationSnapshot (h : InStep b b') (hverifying : b.shadow.instrument = some i)
    (snap : DepthSnapshot) :
    (b'.onVerificationSnapshot i snap).2.2 = (b.onVerificationSnapshot i snap).2.2 ∧
      InStep (b.onVerificationSnapshot i snap).2.1 (b'.onVerificationSnapshot i snap).2.1 := by
  obtain ⟨stats, shadow, rfl, ⟨hsame, hloaded, hsync⟩ | ⟨hnone, _⟩⟩ := h
  · unfold MdBooks.onVerificationSnapshot
    rw [show ({ b with stats, shadow } : MdBooks).shadow.instrument = b.shadow.instrument from hsame,
      show ({ b with stats, shadow } : MdBooks).shadow.loaded = b.shadow.loaded from hloaded]
    split
    · exact ⟨rfl, stats, shadow, rfl, .inl ⟨hsame, hloaded, hsync⟩⟩
    · obtain ⟨hres, halike⟩ := onSnapshot_alike hsync snap.lastUpdateId snap.bids snap.asks
      have hused : (({ b with stats, shadow } : MdBooks).loadShadow snap).1 = (b.loadShadow snap).1 :=
        congrArg (fun res => (Except.toOption res).isSome) hres
      have hstep : InStep (b.loadShadow snap).2 (({ b with stats, shadow } : MdBooks).loadShadow snap).2 :=
        ⟨stats, _, rfl, .inl ⟨hsame, hloaded, halike⟩⟩
      dsimp only
      rw [hused]
      refine hstep.afterVerificationSnapshot ?_ i _
      exact ⟨stats, ⟨shadow.instrument, _, true⟩, rfl, .inl ⟨hsame, rfl, halike⟩⟩
  · exact absurd (hnone.symm.trans hverifying) nofun

/-- The end of a connection. -/
theorem resetAll (h : InStep b b') : InStep b.resetAll b'.resetAll := by
  obtain ⟨stats, shadow, rfl, hshadow⟩ := h
  have hreset : InStep { b with syncs := b.syncs.map BookSync.reset }
      { b with syncs := b.syncs.map BookSync.reset, stats, shadow } := ⟨stats, shadow, rfl, hshadow⟩
  exact hreset.cancel

end InStep

/-! ## §3 Records -/

theorem splitId_idBytes (i : InstrumentId) (rest : Bytes) :
    splitId (MdSession.idBytes i ++ rest) = some (i, rest) := by
  have hlen : (MdSession.idBytes i).length = 4 := length_toLe 4 _
  have htake : (MdSession.idBytes i ++ rest).take 4 = MdSession.idBytes i :=
    List.take_left' hlen
  have hvalue : ofLe (MdSession.idBytes i) = i.index := by
    rw [MdSession.idBytes, ofLe_toLe, Nat.mod_eq_of_lt (show i.index < 256 ^ 4 from i.value.toNat_lt)]
  have hlong : ¬ (MdSession.idBytes i ++ rest).length < 4 := by
    rw [List.length_append, hlen]
    omega
  rw [splitId, if_neg hlong, htake, hvalue, List.drop_left' hlen]
  simp [InstrumentId.index]

namespace Replaying

variable {st : Replaying} {books : MdBooks} {header : RecordHeader}

/-- The records of a session go on where those before left off. -/
theorem run_snoc {st st₁ st₂ : Replaying} {records : List Record} {record : Record}
    (hrun : st.run records = (.ok (), st₁)) (hrecord : st₁.record record = .ok st₂) :
    st.run (records ++ [record]) = (.ok (), st₂) := by
  induction records generalizing st with
  | nil =>
      cases hrun
      rw [List.nil_append, run, hrecord]
      rfl
  | cons first records ih =>
      rw [run] at hrun
      rw [List.cons_append, run]
      cases hfirst : st.record first with
      | error err =>
          rw [hfirst] at hrun
          cases hrun
      | ok st' =>
          rw [hfirst] at hrun
          exact ih hrun

theorem session_eq (h : st.books = some books) : st.session = .ok books := by
  rw [session, h]

theorem withId_eq (h : st.books = some books) (i : InstrumentId) (body : Bytes)
    (act : MdBooks → InstrumentId → Bytes → MdBooks × List HandlerCall) :
    st.withId (MdSession.idBytes i ++ body) act =
      .ok (st.after (act books i body).1 (act books i body).2) := by
  rw [withId, session_eq h]
  simp only [bind, Except.bind, splitId_idBytes]

theorem record_message (h : st.books = some books) (hkind : header.kind = .mdMessage)
    (bytes : Bytes) : st.record ⟨header, bytes⟩ =
      .ok (st.after (books.onMessage bytes).2.1 (books.onMessage bytes).2.2).countMessage := by
  simp only [record, hkind]
  rw [if_neg (by decide), if_pos trivial, session_eq h]
  rfl

theorem record_snapshot (h : st.books = some books) (hkind : header.kind = .mdSnapshot)
    (i : InstrumentId) (body : Bytes) :
    st.record ⟨header, MdSession.idBytes i ++ body⟩ =
      .ok (st.after (books.onRawSnapshot i body ⟨header.wall⟩).2.1
        (books.onRawSnapshot i body ⟨header.wall⟩).2.2).countSnapshot := by
  simp only [record, hkind]
  rw [if_neg (by decide), if_neg (by decide), if_pos trivial, withId_eq h]
  rfl

theorem record_verifyStart (h : st.books = some books) (hkind : header.kind = .mdVerifyStart)
    (i : InstrumentId) : st.record ⟨header, MdSession.idBytes i⟩ =
      .ok (st.after (books.startVerification i).2 []) := by
  have hid := withId_eq h i [] fun books instrument _ => ((books.startVerification instrument).2, [])
  rw [List.append_nil] at hid
  simp only [record, hkind]
  rw [if_neg (by decide), if_neg (by decide), if_neg (by decide), if_pos trivial, hid]

theorem record_verifySnapshot (h : st.books = some books)
    (hkind : header.kind = .mdVerifySnapshot) (i : InstrumentId) (body : Bytes) :
    st.record ⟨header, MdSession.idBytes i ++ body⟩ =
      .ok (st.after (books.onRawVerificationSnapshot i body).2.1
        (books.onRawVerificationSnapshot i body).2.2).countVerification := by
  simp only [record, hkind]
  rw [if_neg (by decide), if_neg (by decide), if_neg (by decide), if_neg (by decide),
    if_pos trivial, withId_eq h]
  rfl

theorem record_reset (h : st.books = some books) (hkind : header.kind = .mdReset)
    (payload : Bytes) :
    st.record ⟨header, payload⟩ = .ok (st.after books.resetAll []).countReset := by
  simp only [record, hkind]
  rw [if_neg (by decide), if_neg (by decide), if_neg (by decide), if_neg (by decide),
    if_neg (by decide), if_pos trivial, session_eq h]
  rfl

/-- Status text is for humans. -/
theorem record_status (hkind : header.kind = .mdStatus) (payload : Bytes) :
    st.record ⟨header, payload⟩ = .ok st := by
  simp only [record, hkind]
  rw [if_neg (by decide), if_neg (by decide), if_neg (by decide), if_neg (by decide),
    if_neg (by decide), if_neg (by decide), if_neg (by decide)]

end Replaying

/-! ## §4 Answers -/

/-- Every job is about an instrument of the session, and every snapshot is what the
session's own decoder makes of the body. -/
structure Answers (s : MdSession) : Prop where
  levels : s.books.snapshotLevels = s.config.snapshotLimit.toNat
  jobs : ∀ job ∈ s.working.toList ++ s.jobs,
    s.books.instruments.get job.instrument.id = some job.instrument
  results : ∀ result ∈ s.results, ∀ snapshot, result.outcome = .ok snapshot →
    ∃ info, s.books.instruments.get result.instrument = some info ∧
      decodeSnapshot info s.books.snapshotLevels snapshot.raw = .ok snapshot.toDepthSnapshot

theorem fetch_eq_ok {limit : Nat} {instrument : Instrument}
    {response : Except SnapshotFailure Bytes} {fetchedAt : WallTime} {snapshot : OwnedSnapshot}
    (h : fetch limit instrument response fetchedAt = .ok snapshot) :
    decodeSnapshot instrument limit snapshot.raw = .ok snapshot.toDepthSnapshot := by
  unfold fetch at h
  split at h
  · cases h
  · split at h
    · cases h
    · rename_i body decoded hdecode
      cases h
      exact hdecode

namespace Answers

variable {s s' : MdSession}

/-- The channels are as they were. -/
theorem congr (h : Answers s) (hshape : s.SameShape s') (hjobs : s'.jobs = s.jobs)
    (hworking : s'.working = s.working) (hresults : s'.results = s.results) : Answers s' := by
  have htable := hshape.table
  refine ⟨?_, ?_, ?_⟩
  · rw [htable.levels, hshape.config]
    exact h.levels
  · rw [hjobs, hworking, htable.instruments]
    exact h.jobs
  · rw [hresults, htable.instruments, htable.levels]
    exact h.results

theorem quiet (h : Answers s) (hquiet : s.Quiet s') : Answers s' :=
  h.congr hquiet.shape hquiet.jobs hquiet.working hquiet.results

/-- A job is sent. -/
theorem send (h : Answers s) {job : SnapshotJob}
    (hjob : s.books.instruments.get job.instrument.id = some job.instrument)
    (hshape : s.SameShape s') (hjobs : s'.jobs = s.jobs ++ [job])
    (hworking : s'.working = s.working) (hresults : s'.results = s.results) : Answers s' := by
  have hsent : Answers { s with jobs := s.jobs ++ [job] } := by
    refine ⟨h.levels, fun other hother => ?_, h.results⟩
    rw [← List.append_assoc] at hother
    rcases List.mem_append.mp hother with hother | hother
    · exact h.jobs other hother
    · rw [List.mem_singleton.mp hother]
      exact hjob
  exact hsent.congr ⟨hshape.config, hshape.table, hshape.length⟩ hjobs hworking hresults

theorem requestSnapshots (h : Answers s) (now : Instant) : Answers (s.requestSnapshots now) := by
  have hloop : ∀ (indices : List Nat) (s : MdSession), Answers s →
      Answers (indices.foldl (MdSession.requestSnapshot now) s) := by
    intro indices
    induction indices with
    | nil => intro s h; exact h
    | cons index indices ih =>
        intro s h
        refine ih _ ?_
        unfold MdSession.requestSnapshot
        dsimp only
        split
        · exact h
        · split
          · exact h
          · rename_i instrument hget
            rw [← index_of_get hget] at hget
            exact h.send hget ⟨rfl, ⟨rfl, rfl, rfl, rfl⟩, List.length_set⟩ rfl rfl rfl
  exact hloop _ s h

theorem verifyNext (h : Answers s) (clock : Readings) (steps : List Nat) :
    Answers (s.verifyNext clock steps) := by
  induction steps with
  | nil => exact h
  | cons step steps ih =>
      unfold MdSession.verifyNext
      dsimp only
      split
      · exact ih
      · split
        · exact ih
        · rename_i instrument hget _ books hstart
          have htable := MdBooks.run_sameTable s.books (.startVerification (InstrumentId.ofIndex
            ((s.verifyCursor + step) % (usizeMax + 1) % s.books.instruments.instruments.length)))
          rw [BooksOp.run, hstart] at htable
          rw [← index_of_get hget] at hget
          exact h.send hget
            ⟨rfl, ⟨htable.instruments, htable.perMessage, htable.levels, htable.length⟩, rfl⟩
            rfl rfl rfl

theorem startVerification (h : Answers s) (every : Duration) (clock : Readings) (after : Instant) :
    Answers (s.startVerification every clock after) := by
  unfold MdSession.startVerification
  split
  · exact h
  · exact (h.verifyNext clock _).quiet (MdSession.quiet_nextVerification _ _)

theorem scheduleVerification (h : Answers s) (clock : Readings) (after : Instant) :
    Answers (s.scheduleVerification clock after) := by
  unfold MdSession.scheduleVerification
  split
  · exact h
  · split
    · exact h.startVerification _ clock after
    · split
      · exact h
      · exact (h.quiet (MdSession.quiet_abandonVerification s)).startVerification _ clock after

theorem takeJob (h : Answers s) : Answers s.takeJob := by
  unfold MdSession.takeJob
  split
  · rename_i job jobs hworking hjobs
    refine ⟨h.levels, fun other hother => h.jobs other ?_, h.results⟩
    rw [hworking, hjobs]
    exact hother
  · exact h

theorem finishJob (h : Answers s) (response : Except SnapshotFailure Bytes) (fetchedAt : WallTime) :
    Answers (s.finishJob response fetchedAt) := by
  unfold MdSession.finishJob
  split
  · exact h
  · rename_i job hworking
    have hjob := h.jobs job (by simp [hworking])
    refine ⟨h.levels, fun other hother => h.jobs other (List.mem_append_right _ hother), ?_⟩
    intro result hresult snapshot hok
    rcases List.mem_append.mp hresult with hresult | hresult
    · exact h.results result hresult snapshot hok
    · obtain rfl := List.mem_singleton.mp hresult
      refine ⟨job.instrument, hjob, ?_⟩
      rw [h.levels]
      exact fetch_eq_ok hok

/-- A result leaves the queue. -/
theorem pop (h : Answers s) {result : SnapshotResult} {results : List SnapshotResult}
    (hresults : s.results = result :: results) : Answers { s with results } :=
  ⟨h.levels, h.jobs, fun other hother => h.results other (by
    rw [hresults]
    exact List.mem_cons_of_mem _ hother)⟩

theorem collectSnapshot (h : Answers s) (debugText : MdStatus → Bytes) (clock : Readings) :
    Answers (s.collectSnapshot debugText clock) := by
  unfold MdSession.collectSnapshot
  split
  · exact h
  · rename_i result results hresults
    have hpop := h.pop hresults
    dsimp only
    split
    · exact hpop
    · split
      · exact hpop.quiet (MdSession.quiet_applySnapshot debugText _ result clock).1
      · exact hpop.quiet (MdSession.quiet_applyVerificationSnapshot _ result clock)

theorem takeAllDown (h : Answers s) (clock : Readings) : Answers (s.takeAllDown clock) := by
  have hdropped := MdSession.quiet_dropVerification { s.record .mdReset none [] clock with
    generation := s.generation + 1, books := s.books.resetAll }
  exact h.congr (MdSession.flow_takeAllDown s clock).shape hdropped.jobs hdropped.working
    hdropped.results

theorem step (h : Answers s) (debugText : MdStatus → Bytes) (step : SessionStep) :
    Answers (step.run debugText s) := by
  cases step with
  | connecting clock => exact h.quiet (MdSession.quiet_status debugText s _ clock)
  | connected clock =>
      exact (h.quiet (MdSession.quiet_countConnection s)).quiet
        (MdSession.quiet_status debugText _ _ clock)
  | message bytes clock => exact h.quiet (MdSession.quiet_message s bytes clock)
  | collectSnapshot clock => exact h.collectSnapshot debugText clock
  | requestSnapshots now => exact h.requestSnapshots now
  | scheduleVerification clock after => exact h.scheduleVerification clock after
  | takeAllDown clock => exact h.takeAllDown clock
  | disconnected reason clock => exact h.quiet (MdSession.quiet_status debugText s _ clock)
  | takeJob => exact h.takeJob
  | finishJob response fetchedAt => exact h.finishJob response fetchedAt

end Answers

/-! ## §5 Session -/

/-- The calls that are about books. -/
def HandlerCall.isBookCall : HandlerCall → Bool
  | .onBook _ _ _ => true
  | .onStatus (.instrumentLive _) => true
  | .onStatus (.instrumentDown _ _) => true
  | .onStatus _ => false

/-- The calls of a session that are about books. -/
def MdSession.bookCalls (s : MdSession) : List HandlerCall :=
  s.handler.filter HandlerCall.isBookCall

theorem report_isBookCall (b : MdBooks) (applied : Applied) :
    (b.report applied).filter HandlerCall.isBookCall = b.report applied := by
  cases applied with
  | quiet => rfl
  | book i time => cases hbook : b.book i <;> simp [MdBooks.report, hbook, HandlerCall.isBookCall]
  | down i reason => rfl

theorem settle_isBookCall (b : MdBooks) (i : InstrumentId) (res : Except SyncError Bool × BookSync)
    (time : WallTime) :
    (b.settle i res time).2.2.filter HandlerCall.isBookCall = (b.settle i res time).2.2 := by
  unfold MdBooks.settle
  dsimp only
  split
  · split <;> rfl
  · rfl
  · rfl
  · rfl

theorem onSnapshot_isBookCall (b : MdBooks) (i : InstrumentId) (snap : DepthSnapshot)
    (time : WallTime) :
    (b.onSnapshot i snap time).2.2.filter HandlerCall.isBookCall =
      (b.onSnapshot i snap time).2.2 := by
  unfold MdBooks.onSnapshot
  split
  · rfl
  · exact settle_isBookCall b i _ time

theorem afterVerificationSnapshot_isBookCall (b : MdBooks) (i : InstrumentId) (loaded : Bool) :
    (b.afterVerificationSnapshot i loaded).2.2.filter HandlerCall.isBookCall =
      (b.afterVerificationSnapshot i loaded).2.2 := by
  unfold MdBooks.afterVerificationSnapshot
  split
  · rfl
  · dsimp only
    split <;> rfl

theorem onVerificationSnapshot_isBookCall (b : MdBooks) (i : InstrumentId) (snap : DepthSnapshot) :
    (b.onVerificationSnapshot i snap).2.2.filter HandlerCall.isBookCall =
      (b.onVerificationSnapshot i snap).2.2 := by
  rcases b.onVerificationSnapshot_cases i snap with ⟨-, heq⟩ | ⟨-, heq⟩
  · rw [heq]
    rfl
  · rw [heq]
    exact afterVerificationSnapshot_isBookCall _ i _

/-- Syncs of one configuration. -/
def Configured (config : SyncConfig) (_ : InstrumentId) (s : BookSync) : Prop :=
  s.Inv (fun _ _ => True) ∧ s.config = config

theorem kept_configured (config : SyncConfig) :
    Kept (Configured config) (fun _ _ => True) where
  call h _ := ⟨SyncCall.run_inv h.1 (SyncCall.deltaIs_true _), (SyncCall.run_config h.1 _).trans h.2⟩
  reset _ h := ⟨BookSync.invalidate_inv h.1.book h.1.ordered.storage, h.2⟩

theorem Configured.run {config : SyncConfig} {b : MdBooks} (h : b.Holds (Configured config))
    (op : BooksOp) : (op.run b).Holds (Configured config) := by
  refine MdBooks.Holds.run (kept_configured config) h ?_
  cases op <;> simp [BooksOp.Meets]

/-- The verification syncs are of one configuration, so that a reset makes them
alike. -/
theorem Configured.reset_shadow {config : SyncConfig} {b b' : MdBooks}
    (h : b.Holds (Configured config)) (h' : b'.Holds (Configured config)) :
    Alike b.shadow.sync.reset b'.shadow.sync.reset := by
  obtain ⟨_, ⟨hinv, hconfig⟩, _⟩ := h.shadow
  obtain ⟨_, ⟨hinv', hconfig'⟩, _⟩ := h'.shadow
  exact reset_alike hinv hinv' (hconfig'.trans hconfig.symm)

/-- Whether a step gives up the verification in progress: it has taken too long, or
fetching its snapshot failed. -/
def MdSession.abandons (s : MdSession) : SessionStep → Bool
  | .scheduleVerification clock _ =>
      s.config.verifyEvery.isSome &&
        s.verification.any fun (_, started) => decide (s.config.verifyTimeout ≤ clock.now - started)
  | .collectSnapshot _ =>
      match s.results.head?, s.verification with
      | some result, some (id, _) =>
          decide (result.generation = s.generation ∧ result.purpose = .verify ∧
            id = result.instrument ∧ s.books.verifying = some id) && !result.outcome.isOk
      | _, _ => false
  | _ => false

/-- No step gives up a verification whose snapshot is loaded. -/
def MdSession.KeepsLoaded (debugText : MdStatus → Bytes) (s : MdSession) :
    List SessionStep → Prop
  | [] => True
  | step :: steps =>
      (s.books.shadow.loaded && s.abandons step) = false ∧
        KeepsLoaded debugText (step.run debugText s) steps

instance MdSession.decidableKeepsLoaded (debugText : MdStatus → Bytes) :
    ∀ (s : MdSession) (steps : List SessionStep), Decidable (s.KeepsLoaded debugText steps)
  | _, [] => isTrue trivial
  | s, step :: steps =>
      haveI := decidableKeepsLoaded debugText (step.run debugText s) steps
      inferInstanceAs (Decidable (_ ∧ _))

/-- Nothing that the handler or the journal sees. -/
structure Unseen (s s' : MdSession) : Prop where
  handler : s'.handler = s.handler
  journal : s'.journal = s.journal
  books : ∃ stats, s'.books = { s.books with stats }

/-- The live session and a replay of its journal. -/
structure Mirrors (config : SyncConfig) (s : MdSession) (st : Replaying) : Prop where
  journal : ∃ records, s.journal = some records ∧ Replaying.start.run records = (.ok (), st)
  handler : st.handler = s.bookCalls
  live : s.books.Holds (Configured config)
  books : ∃ books, st.books = some books ∧ InStep s.books books ∧ books.Holds (Configured config)

section Mirrors

variable {config : SyncConfig} {s s' s'' : MdSession} {st st' : Replaying}

theorem Unseen.refl (s : MdSession) : Unseen s s := ⟨rfl, rfl, s.books.stats, rfl⟩

theorem Unseen.trans (h : Unseen s s') (h' : Unseen s' s'') : Unseen s s'' := by
  obtain ⟨stats, hbooks⟩ := h.books
  obtain ⟨stats', hbooks'⟩ := h'.books
  exact ⟨h'.handler.trans h.handler, h'.journal.trans h.journal, stats', by rw [hbooks', hbooks]⟩

theorem Mirrors.unseen (h : Mirrors config s st) (hunseen : Unseen s s') : Mirrors config s' st := by
  obtain ⟨stats, hstats⟩ := hunseen.books
  obtain ⟨books, hbooks, hstep, hholds⟩ := h.books
  refine ⟨?_, ?_, ?_, books, hbooks, ?_, hholds⟩
  · rw [hunseen.journal]
    exact h.journal
  · rw [MdSession.bookCalls, hunseen.handler]
    exact h.handler
  · rw [hstats]
    exact ⟨h.live.live, h.live.shadow⟩
  · rw [hstats]
    exact hstep.stats stats books.stats

/-- A step that writes one record, changes the books and calls the handler. -/
theorem Mirrors.recorded (h : Mirrors config s st) {kind : Kind} (wall : Option WallTime)
    {parts : List Bytes} {payload : Bytes} (clock : Readings) {b b' : MdBooks}
    (calls : List HandlerCall) (hparts : parts.flatten = payload)
    (hrecord : st.record ⟨⟨kind, VenueId.binance.code, clock.mono, (wall.getD clock.wall).nanos⟩,
      payload⟩ = .ok st')
    (hbooks : st'.books = some b') (hstep : InStep b b') (hlive : b.Holds (Configured config))
    (hholds : b'.Holds (Configured config))
    (hcalls : st'.handler = st.handler ++ calls.filter HandlerCall.isBookCall) :
    Mirrors config (({ s.record kind wall parts clock with books := b } : MdSession).tell calls)
      st' := by
  obtain ⟨records, hjournal, hrun⟩ := h.journal
  refine ⟨⟨_, ?_, Replaying.run_snoc hrun hrecord⟩, ?_, hlive, b', hbooks, hstep, hholds⟩
  · show s.journal.map _ = _
    rw [hjournal, hparts]
    rfl
  · rw [hcalls, h.handler]
    exact (List.filter_append ..).symm

theorem unseen_countConnection (s : MdSession) : Unseen s s.countConnection := ⟨rfl, rfl, _, rfl⟩

theorem unseen_countAbandoned (s : MdSession) : Unseen s s.countAbandoned := ⟨rfl, rfl, _, rfl⟩

theorem unseen_setState (s : MdSession) (i : InstrumentId) (state : SnapshotState) :
    Unseen s (s.setState i state) := ⟨rfl, rfl, _, rfl⟩

theorem unseen_endVerification (s : MdSession) (applied : Applied) :
    Unseen s (s.endVerification applied) := by
  unfold MdSession.endVerification
  split
  · exact .refl s
  · split
    · exact .refl s
    · split
      · split
        · exact ⟨rfl, rfl, _, rfl⟩
        · exact ⟨rfl, rfl, _, rfl⟩
      · exact ⟨rfl, rfl, _, rfl⟩

theorem unseen_afterApply (s : MdSession) (applied : Applied) :
    Unseen (s.tell (s.books.report applied)) (s.afterApply applied) := by
  have hended := unseen_endVerification (s.tell (s.books.report applied)) applied
  cases applied with
  | quiet => exact hended
  | book i time => exact hended
  | down i reason => exact hended.trans (unseen_setState _ i .idle)

theorem unseen_afterVerdict (s : MdSession) (id : InstrumentId) (verdict : Verification) :
    Unseen s (s.afterVerdict id verdict) := by
  cases verdict <;> exact ⟨rfl, rfl, _, rfl⟩

theorem unseen_dropVerification (s : MdSession) : Unseen s s.dropVerification := by
  unfold MdSession.dropVerification
  split <;> exact ⟨rfl, rfl, _, rfl⟩

theorem unseen_requestSnapshots (s : MdSession) (now : Instant) :
    Unseen s (s.requestSnapshots now) := by
  have hloop : ∀ (indices : List Nat) (s : MdSession),
      Unseen s (indices.foldl (MdSession.requestSnapshot now) s) := by
    intro indices
    induction indices with
    | nil => exact .refl
    | cons index indices ih =>
        intro s
        refine .trans ?_ (ih _)
        unfold MdSession.requestSnapshot
        dsimp only
        split
        · exact .refl s
        · split <;> exact ⟨rfl, rfl, _, rfl⟩
  exact hloop _ s

theorem unseen_takeJob (s : MdSession) : Unseen s s.takeJob := by
  unfold MdSession.takeJob
  split <;> exact ⟨rfl, rfl, _, rfl⟩

theorem unseen_finishJob (s : MdSession) (response : Except SnapshotFailure Bytes)
    (fetchedAt : WallTime) : Unseen s (s.finishJob response fetchedAt) := by
  unfold MdSession.finishJob
  split <;> exact ⟨rfl, rfl, _, rfl⟩

/-- A status that is not about a book. -/
theorem Mirrors.status (h : Mirrors config s st) (debugText : MdStatus → Bytes) {status : MdStatus}
    (hstatus : (HandlerCall.onStatus status).isBookCall = false) (clock : Readings) :
    Mirrors config (s.status debugText status clock) st := by
  obtain ⟨books, hbooks, hstep, hholds⟩ := h.books
  refine h.recorded none clock [.onStatus status] rfl (Replaying.record_status rfl _) hbooks hstep h.live hholds ?_
  rw [List.filter_cons_of_neg (by rw [hstatus]; exact Bool.false_ne_true), List.filter_nil,
    List.append_nil]

theorem Mirrors.message (h : Mirrors config s st) (bytes : Bytes) (clock : Readings) :
    ∃ st', Mirrors config (s.message bytes clock) st' := by
  obtain ⟨books, hbooks, hstep, hholds⟩ := h.books
  obtain ⟨hres, happly⟩ := hstep.apply bytes
  have hlive : (s.books.apply bytes).2.Holds (Configured config) := by
    have hrun := Configured.run h.live (.message bytes)
    rwa [BooksOp.run, InStep.onMessage_eq] at hrun
  have hholds' : (books.apply bytes).2.Holds (Configured config) := by
    have hrun := Configured.run hholds (.message bytes)
    rwa [BooksOp.run, InStep.onMessage_eq] at hrun
  have hrecord : st.record ⟨⟨.mdMessage, VenueId.binance.code, clock.mono, clock.wall.nanos⟩,
      bytes⟩ = _ := Replaying.record_message hbooks rfl bytes
  have hparts : [bytes].flatten = bytes := List.flatten_singleton
  rw [InStep.onMessage_eq, hres] at hrecord
  show ∃ st', Mirrors config (MdSession.afterMessage { s.record .mdMessage none [bytes] clock with
    books := (s.books.apply bytes).2 } (s.books.apply bytes).1) st'
  cases hmessage : (s.books.apply bytes).1 with
  | ok applied =>
      rw [hmessage] at hrecord
      have hrecorded := h.recorded none clock ((s.books.apply bytes).2.report applied) hparts hrecord rfl happly
        hlive hholds' (by
          rw [report_isBookCall, ← happly.report_eq]
          rfl)
      exact ⟨_, hrecorded.unseen (unseen_afterApply _ applied)⟩
  | error err =>
      rw [hmessage] at hrecord
      have hrecorded := h.recorded none clock [] hparts hrecord rfl happly hlive hholds' rfl
      exact ⟨_, hrecorded.unseen ⟨(List.append_nil _).symm, rfl, _, rfl⟩⟩

/-- A snapshot is applied: the replay decodes its body to the same snapshot. -/
theorem Mirrors.useSnapshot (h : Mirrors config s st) {id : InstrumentId}
    {snapshot : OwnedSnapshot} {info : Instrument} (hinfo : s.books.instruments.get id = some info)
    (hdecode : decodeSnapshot info s.books.snapshotLevels snapshot.raw =
      .ok snapshot.toDepthSnapshot) (clock : Readings) :
    ∃ st', Mirrors config (s.useSnapshot id snapshot clock) st' := by
  obtain ⟨books, hbooks, hstep, hholds⟩ := h.books
  obtain ⟨hcalls, hsnapshot⟩ :=
    hstep.onSnapshot id snapshot.toDepthSnapshot snapshot.fetchedAt
  have hraw : books.onRawSnapshot id snapshot.raw snapshot.fetchedAt =
      books.onSnapshot id snapshot.toDepthSnapshot snapshot.fetchedAt := by
    obtain ⟨stats, shadow, rfl, _⟩ := hstep
    exact MdBooks.onRawSnapshot_eq (b := { s.books with stats, shadow }) hinfo hdecode _
  have hrecord : st.record ⟨⟨.mdSnapshot, VenueId.binance.code, clock.mono,
      snapshot.fetchedAt.nanos⟩, MdSession.idBytes id ++ snapshot.raw⟩ = _ :=
    Replaying.record_snapshot hbooks rfl id snapshot.raw
  rw [show (⟨snapshot.fetchedAt.nanos⟩ : WallTime) = snapshot.fetchedAt from rfl, hraw] at hrecord
  have hrecorded := h.recorded (some snapshot.fetchedAt) clock
    (s.books.onSnapshot id snapshot.toDepthSnapshot snapshot.fetchedAt).2.2
    (show [MdSession.idBytes id, snapshot.raw].flatten = _ by simp) hrecord rfl hsnapshot
    (Configured.run h.live (.snapshot id snapshot.toDepthSnapshot snapshot.fetchedAt))
    (Configured.run hholds (.snapshot id snapshot.toDepthSnapshot snapshot.fetchedAt)) (by
      rw [onSnapshot_isBookCall, ← hcalls]
      rfl)
  exact ⟨_, hrecorded.unseen (unseen_setState _ id _)⟩

/-- A verification snapshot is loaded, while the session verifies. -/
theorem Mirrors.useVerificationSnapshot (h : Mirrors config s st) {id : InstrumentId}
    {snapshot : OwnedSnapshot} {info : Instrument} (hinfo : s.books.instruments.get id = some info)
    (hdecode : decodeSnapshot info s.books.snapshotLevels snapshot.raw =
      .ok snapshot.toDepthSnapshot) (hverifying : s.books.shadow.instrument = some id)
    (clock : Readings) : ∃ st', Mirrors config (s.useVerificationSnapshot id snapshot clock) st' := by
  obtain ⟨books, hbooks, hstep, hholds⟩ := h.books
  obtain ⟨hcalls, hloaded⟩ := hstep.onVerificationSnapshot hverifying snapshot.toDepthSnapshot
  have hraw : books.onRawVerificationSnapshot id snapshot.raw =
      books.onVerificationSnapshot id snapshot.toDepthSnapshot := by
    obtain ⟨stats, shadow, rfl, _⟩ := hstep
    exact MdBooks.onRawVerificationSnapshot_eq (b := { s.books with stats, shadow }) hinfo hdecode
  have hrecord : st.record ⟨⟨.mdVerifySnapshot, VenueId.binance.code, clock.mono,
      snapshot.fetchedAt.nanos⟩, MdSession.idBytes id ++ snapshot.raw⟩ = _ :=
    Replaying.record_verifySnapshot hbooks rfl id snapshot.raw
  rw [hraw] at hrecord
  have hrecorded := h.recorded (some snapshot.fetchedAt) clock
    (s.books.onVerificationSnapshot id snapshot.toDepthSnapshot).2.2
    (show [MdSession.idBytes id, snapshot.raw].flatten = _ by simp) hrecord rfl hloaded
    (Configured.run h.live (.verificationSnapshot id snapshot.toDepthSnapshot))
    (Configured.run hholds (.verificationSnapshot id snapshot.toDepthSnapshot)) (by
      rw [onVerificationSnapshot_isBookCall, ← hcalls]
      rfl)
  exact ⟨_, hrecorded.unseen (unseen_afterVerdict _ id _)⟩

/-- A verification without a snapshot is abandoned. -/
theorem Mirrors.abandonVerification (h : Mirrors config s st)
    (hloaded : s.books.shadow.loaded = false) : Mirrors config s.abandonVerification st := by
  obtain ⟨books, hbooks, hstep, hholds⟩ := h.books
  have hcancelled : Mirrors config
      { s with books := s.books.cancelVerification, verification := none } st :=
    ⟨h.journal, h.handler, Configured.run h.live .cancelVerification, books, hbooks,
      hstep.cancel_live hloaded, hholds⟩
  exact hcancelled.unseen (unseen_countAbandoned _)

/-- A verification is started. -/
theorem Mirrors.sendVerification (h : Mirrors config s st) (id : InstrumentId)
    (instrument : Instrument) (clock : Readings) :
    ∃ st', Mirrors config (({ s with books := (s.books.startVerification id).2 } :
      MdSession).sendVerification id instrument clock) st' := by
  obtain ⟨books, hbooks, hstep, hholds⟩ := h.books
  have hstarted := hstep.startVerification (Configured.reset_shadow h.live hholds) id
  have hrecord : st.record ⟨⟨.mdVerifyStart, VenueId.binance.code, clock.mono,
      clock.wall.nanos⟩, MdSession.idBytes id⟩ = _ := Replaying.record_verifyStart hbooks rfl id
  have hrecorded := h.recorded none clock [] (show [MdSession.idBytes id].flatten = _ by simp) hrecord rfl
    hstarted (Configured.run h.live (.startVerification id))
    (Configured.run hholds (.startVerification id)) rfl
  exact ⟨_, hrecorded.unseen ⟨(List.append_nil _).symm, rfl, _, rfl⟩⟩

theorem Mirrors.takeAllDown (h : Mirrors config s st) (clock : Readings) :
    ∃ st', Mirrors config (s.takeAllDown clock) st' := by
  obtain ⟨books, hbooks, hstep, hholds⟩ := h.books
  have hrecord : st.record ⟨⟨.mdReset, VenueId.binance.code, clock.mono, clock.wall.nanos⟩, []⟩ = _ :=
    Replaying.record_reset hbooks rfl []
  have hrecorded := h.recorded none clock [] (show ([] : List Bytes).flatten = [] from rfl) hrecord rfl
    hstep.resetAll (Configured.run h.live .resetAll) (Configured.run hholds .resetAll) rfl
  have hended : Unseen (({ s.record .mdReset none [] clock with books := s.books.resetAll } :
      MdSession).tell []) { s.record .mdReset none [] clock with
        generation := s.generation + 1, books := s.books.resetAll } :=
    ⟨(List.append_nil _).symm, rfl, _, rfl⟩
  have hdropped := hended.trans (unseen_dropVerification _)
  exact ⟨_, hrecorded.unseen (hdropped.trans ⟨rfl, rfl, _, rfl⟩)⟩

theorem Mirrors.collectSnapshot (h : Mirrors config s st) (hanswers : Answers s)
    (debugText : MdStatus → Bytes) (clock : Readings)
    (hkept : (s.books.shadow.loaded && s.abandons (.collectSnapshot clock)) = false) :
    ∃ st', Mirrors config (s.collectSnapshot debugText clock) st' := by
  unfold MdSession.collectSnapshot
  split
  · exact ⟨st, h⟩
  · rename_i result results hresults
    have hpop : Mirrors config { s with results } st := h.unseen ⟨rfl, rfl, _, rfl⟩
    have hanswer := hanswers.results result (by rw [hresults]; exact List.mem_cons_self ..)
    dsimp only
    split
    · exact ⟨st, hpop⟩
    · rename_i hgeneration
      split
      · unfold MdSession.applySnapshot
        split
        · exact ⟨st, (hpop.unseen (unseen_setState _ _ _)).status debugText rfl clock⟩
        · rename_i snapshot hok
          obtain ⟨info, hinfo, hdecode⟩ := hanswer snapshot hok
          exact hpop.useSnapshot hinfo hdecode clock
      · rename_i hpurpose
        unfold MdSession.applyVerificationSnapshot
        split
        · exact ⟨st, hpop⟩
        · rename_i id started hverification
          split
          · exact ⟨st, hpop⟩
          · rename_i hcurrent
            obtain ⟨rfl, hverifying⟩ := not_or.mp hcurrent |>.imp not_not.mp not_not.mp
            split
            · -- The fetch failed.
              rename_i failure hfailed
              have habandons : s.abandons (.collectSnapshot clock) = true := by
                have hverification' : s.verification = some (result.instrument, started) :=
                  hverification
                have hverifying' : s.books.verifying = some result.instrument := hverifying
                simp [MdSession.abandons, hresults, hverification', not_not.mp hgeneration, hpurpose,
                  hverifying', hfailed, Except.isOk, Except.toBool]
              rw [habandons, Bool.and_true] at hkept
              exact ⟨st, hpop.abandonVerification hkept⟩
            · rename_i snapshot hok
              obtain ⟨info, hinfo, hdecode⟩ := hanswer snapshot hok
              exact hpop.useVerificationSnapshot hinfo hdecode hverifying clock

theorem Mirrors.verifyNext (h : Mirrors config s st) (clock : Readings) (steps : List Nat) :
    ∃ st', Mirrors config (s.verifyNext clock steps) st' := by
  induction steps with
  | nil => exact ⟨st, h⟩
  | cons step steps ih =>
      unfold MdSession.verifyNext
      dsimp only
      split
      · exact ih
      · split
        · exact ih
        · rename_i instrument hget _ books hstart
          obtain ⟨st', hsent⟩ := h.sendVerification (InstrumentId.ofIndex
            ((s.verifyCursor + step) % (usizeMax + 1) % s.books.instruments.instruments.length))
            instrument clock
          rw [hstart] at hsent
          exact ⟨st', hsent.unseen ⟨rfl, rfl, _, rfl⟩⟩

theorem Mirrors.startVerification (h : Mirrors config s st) (every : Duration) (clock : Readings)
    (after : Instant) : ∃ st', Mirrors config (s.startVerification every clock after) st' := by
  unfold MdSession.startVerification
  split
  · exact ⟨st, h⟩
  · obtain ⟨st', hnext⟩ := h.verifyNext clock
      (List.range s.books.instruments.instruments.length)
    exact ⟨st', hnext.unseen ⟨rfl, rfl, _, rfl⟩⟩

theorem Mirrors.scheduleVerification (h : Mirrors config s st) (clock : Readings) (after : Instant)
    (hkept : (s.books.shadow.loaded && s.abandons (.scheduleVerification clock after)) = false) :
    ∃ st', Mirrors config (s.scheduleVerification clock after) st' := by
  unfold MdSession.scheduleVerification
  split
  · exact ⟨st, h⟩
  · rename_i every hevery
    split
    · exact h.startVerification every clock after
    · rename_i id started hverification
      split
      · exact ⟨st, h⟩
      · rename_i hlate
        have habandons : s.abandons (.scheduleVerification clock after) = true := by
          simp [MdSession.abandons, hevery, hverification, not_lt.mp hlate]
        rw [habandons, Bool.and_true] at hkept
        exact (h.abandonVerification hkept).startVerification every clock after

/-- Every step that does not give up a loaded verification. -/
theorem Mirrors.step (h : Mirrors config s st) (hanswers : Answers s) (debugText : MdStatus → Bytes)
    (step : SessionStep) (hkept : (s.books.shadow.loaded && s.abandons step) = false) :
    ∃ st', Mirrors config (step.run debugText s) st' := by
  cases step with
  | connecting clock => exact ⟨st, h.status debugText rfl clock⟩
  | connected clock =>
      exact ⟨st, (h.unseen (unseen_countConnection s)).status debugText rfl clock⟩
  | message bytes clock => exact h.message bytes clock
  | collectSnapshot clock => exact h.collectSnapshot hanswers debugText clock hkept
  | requestSnapshots now => exact ⟨st, h.unseen (unseen_requestSnapshots s now)⟩
  | scheduleVerification clock after => exact h.scheduleVerification clock after hkept
  | takeAllDown clock => exact h.takeAllDown clock
  | disconnected reason clock => exact ⟨st, h.status debugText rfl clock⟩
  | takeJob => exact ⟨st, h.unseen (unseen_takeJob s)⟩
  | finishJob response fetchedAt => exact ⟨st, h.unseen (unseen_finishJob s response fetchedAt)⟩

theorem Mirrors.run (h : Mirrors config s st) (hanswers : Answers s) (debugText : MdStatus → Bytes)
    {steps : List SessionStep} (hkept : s.KeepsLoaded debugText steps) :
    ∃ st', Mirrors config (s.run debugText steps) st' := by
  induction steps generalizing s st with
  | nil => exact ⟨st, h⟩
  | cons step steps ih =>
      obtain ⟨hstep, hrest⟩ := hkept
      obtain ⟨st', hmirrors⟩ := h.step hanswers debugText step hstep
      exact ih hmirrors (hanswers.step debugText step) hrest

end Mirrors

theorem InStep.refl (b : MdBooks) : InStep b b := ⟨b.stats, b.shadow, rfl, .inl ⟨rfl, rfl, .refl _⟩⟩

/-- The sizes of a session are of their types. -/
theorem MdSession.sizing_fits (s : MdSession) : s.sizing.Fits :=
  ⟨s.config.levels_le, s.config.messages_le, s.config.updates_le, s.config.perMessage_le,
    Nat.le_pred_of_lt s.config.snapshotLimit.toNat_lt⟩

/-- The first record of a session. -/
theorem Replaying.record_sessionStart {st : Replaying} {header : RecordHeader}
    (hkind : header.kind = .sessionStart) {sizing : BookSizing} {instruments : InstrumentTable}
    {books : MdBooks} (hfits : sizing.Fits)
    (hreadable : ∀ i ∈ instruments.instruments, i.venue = .binance ∧ ReadsBack i.minNotional)
    (hbooks : MdBooks.new instruments sizing.sync sizing.maxLevelsPerMessage sizing.snapshotLimit =
      some books) :
    st.record ⟨header, describe sizing instruments⟩ =
      .ok ({ st with books := some books } : Replaying).countSession := by
  simp only [record, hkind]
  rw [if_pos trivial, startSession, validUtf8_describe,
    parseDescription_describe hfits hreadable]
  simp only [Bool.not_true, Bool.false_eq_true, if_false, bind, Except.bind, hbooks]

/-- A session that starts to journal. -/
theorem Mirrors.start {config : MdConfig} {instruments : InstrumentTable} {s : MdSession}
    {now : Instant} (hnew : MdSession.new config instruments now = .ok s)
    (hreadable : ∀ i ∈ instruments.instruments, i.venue = .binance ∧ ReadsBack i.minNotional)
    (clock : Readings) :
    (∃ st, Mirrors config.sync (s.withJournal clock) st) ∧ Answers (s.withJournal clock) := by
  obtain ⟨books, hbooks, rfl⟩ := MdSession.new_eq hnew
  have hholds : books.Holds (Configured config.sync) :=
    MdBooks.Holds.new hbooks fun i s hs => ⟨(BookSync.new_inv hs).1, (BookSync.new_inv
      (D := fun _ _ => True) hs).2.1⟩
  obtain ⟨sync, _, hbooksEq⟩ := MdBooks.new_eq hbooks
  have hinstruments : books.instruments = instruments := by rw [hbooksEq]
  have hlevels : books.snapshotLevels = config.snapshotLimit.toNat := by rw [hbooksEq]
  have hfits := MdSession.sizing_fits ⟨config, books, instruments.instruments.map fun _ => .idle, [],
    none, [], 0, [], none, none, now, 0⟩
  have hrecord : Replaying.start.record ⟨⟨.sessionStart, VenueId.binance.code, clock.mono,
      clock.wall.nanos⟩, describe ⟨config.sync, config.maxLevelsPerMessage,
        config.snapshotLimit.toNat⟩ instruments⟩ = _ :=
    Replaying.record_sessionStart rfl hfits hreadable hbooks
  constructor
  · refine ⟨({ Replaying.start with books := some books } : Replaying).countSession,
      ⟨_, rfl, Replaying.run_snoc rfl ?_⟩, rfl, hholds, books, rfl, .refl books, hholds⟩
    rw [List.flatten_singleton]
    dsimp only [MdSession.sizing]
    rw [hinstruments]
    exact hrecord
  · refine ⟨hlevels, fun job hjob => ?_, fun result hresult => ?_⟩
    · exact absurd (show job ∈ ([] : List SnapshotJob) from hjob) List.not_mem_nil
    · exact absurd (show result ∈ ([] : List SnapshotResult) from hresult) List.not_mem_nil

/-- Replay equals the live run: as long as no verification is given up after its
snapshot was loaded, replaying the journal of a session whose instruments' minimums
read back makes exactly the calls about books that the session made. -/
theorem replay_equals_live_run (debugText : MdStatus → Bytes) {config : MdConfig}
    {instruments : InstrumentTable} {s : MdSession} {now : Instant}
    (hnew : MdSession.new config instruments now = .ok s)
    (hvenue : ∀ i ∈ instruments.instruments, i.venue = .binance)
    (hminimum : ∀ i ∈ instruments.instruments, ReadsBack i.minNotional) (clock : Readings)
    (steps : List SessionStep) (hkept : (s.withJournal clock).KeepsLoaded debugText steps)
    (tornTail : Bool) :
    ∃ records report, ((s.withJournal clock).run debugText steps).journal = some records ∧
      replay records (.ok tornTail) =
        (.ok report, ((s.withJournal clock).run debugText steps).bookCalls) := by
  obtain ⟨⟨st, hstart⟩, hanswers⟩ := Mirrors.start hnew
    (fun i hi => ⟨hvenue i hi, hminimum i hi⟩) clock
  obtain ⟨st', hmirrors⟩ := hstart.run hanswers debugText hkept
  obtain ⟨records, hjournal, hrun⟩ := hmirrors.journal
  refine ⟨records, { st'.report with tornTail }, hjournal, ?_⟩
  rw [replay, hrun, ← hmirrors.handler]

/-- The body of a depth snapshot: one bid of `qty` at 100, one ask at 101. -/
def depthBody (id qty : Nat) : Bytes :=
  ascii (s!"\x7b\"lastUpdateId\":{id},\"bids\":[[\"100\",\"{qty}\"]]," ++
    "\"asks\":[[\"101\",\"1\"]]\x7d")

/-- A depth message of `first..=last` that sets one bid. -/
def rangeMessage (first last price qty : Nat) : Bytes :=
  ascii (s!"\x7b\"e\":\"depthUpdate\",\"E\":1,\"s\":\"BTCUSDT\",\"U\":{first},\"u\":{last}," ++
    s!"\"b\":[[\"{price}\",\"{qty}\"]],\"a\":[]\x7d")

/-- The book goes live at 10. -/
def syncedSteps : List SessionStep :=
  [.requestSnapshots 0, .takeJob, .finishJob (.ok (depthBody 10 1)) ⟨0⟩, .collectSnapshot stopped]

/-- A verification whose snapshot, at 12, is ahead of the live book. -/
def verifiedSteps : List SessionStep :=
  syncedSteps ++ [.scheduleVerification stopped 0, .takeJob,
    .finishJob (.ok (depthBody 12 2)) ⟨0⟩, .collectSnapshot stopped]

/-- The verification takes too long, and only then does the message come that ends it. -/
def abandonedSteps : List SessionStep :=
  verifiedSteps ++ [.scheduleVerification ⟨30, 0, ⟨0⟩⟩ 30, .message (rangeMessage 11 13 99 1) stopped]

/-- The instrument with a minimum of more decimals than the replay reads. -/
def fineUsdt : Instrument :=
  { btcUsdt with minNotional := ⟨⟨1, by decide, by decide⟩, 19, by decide⟩ }

def fineTable : InstrumentTable := ⟨[fineUsdt], by decide⟩

/-- The new session of `btcConfig` that trades it. -/
def fineSession : MdSession :=
  { btcSession with books := { btcSession.books with instruments := fineTable } }

theorem replay_equals_live_run_verified :
    ∃ records report,
      ((btcSession.withJournal stopped).run (fun _ => [])
        (verifiedSteps ++ [.message (rangeMessage 11 13 99 1) stopped])).journal = some records ∧
      replay records (.ok false) = (.ok report,
        ((btcSession.withJournal stopped).run (fun _ => [])
          (verifiedSteps ++ [.message (rangeMessage 11 13 99 1) stopped])).bookCalls) :=
  replay_equals_live_run (fun _ => [])
    (show MdSession.new btcConfig btcTable 0 = .ok btcSession from rfl) (by decide)
    (fun i hi => by
      obtain rfl : i = btcUsdt := List.mem_singleton.mp hi
      exact ⟨by decide, by decide⟩)
    stopped _ (by decide +kernel) false

/-- The calls that a replay of the journal makes. -/
theorem replayed_calls {journal : Option (List Record)} {records : List Record}
    {report : ReplayReport} {calls : List HandlerCall} {tornTail : Bool}
    (hjournal : journal = some records)
    (hreplay : replay records (.ok tornTail) = (.ok report, calls)) :
    journal.map (fun records => (replay records (.ok tornTail)).2) = some calls := by
  rw [hjournal, Option.map_some, hreplay]

theorem replay_differs :
    (MdSession.new btcConfig btcTable 0 = .ok btcSession ∧
      ¬ ∃ records report,
        ((btcSession.withJournal stopped).run (fun _ => []) abandonedSteps).journal =
          some records ∧
        replay records (.ok false) = (.ok report,
          ((btcSession.withJournal stopped).run (fun _ => []) abandonedSteps).bookCalls)) ∧
    (MdSession.new btcConfig fineTable 0 = .ok fineSession ∧
      ¬ ∃ records report,
        ((fineSession.withJournal stopped).run (fun _ => []) syncedSteps).journal =
          some records ∧
        replay records (.ok false) = (.ok report,
          ((fineSession.withJournal stopped).run (fun _ => []) syncedSteps).bookCalls)) := by
  refine ⟨⟨rfl, ?_⟩, rfl, ?_⟩
  · rintro ⟨records, report, hjournal, hreplay⟩
    exact absurd (replayed_calls hjournal hreplay) (by decide +kernel)
  · rintro ⟨records, report, hjournal, hreplay⟩
    exact absurd (replayed_calls hjournal hreplay) (by decide +kernel)

end Bowst.Venue
