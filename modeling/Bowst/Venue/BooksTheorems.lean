/-
Bowst.Venue.BooksTheorems — what every operation of `MdBooks` does to the books.

  §1 Frame    — which fields an operation touches.
  §2 Settled  — how a verification is settled.
  §3 Holds    — a property of single syncs that their calls keep holds for all
                books and the verification book.
-/
import Bowst.L2.SyncTheorems
import Bowst.Venue.Books

namespace Bowst.Venue

open Bowst.Lib Bowst.Core Bowst.L2

/-! ## §1 Frame -/

theorem InstrumentId.index_inj {i j : InstrumentId} : i.index = j.index ↔ i = j := by
  constructor
  · intro h
    cases i with
    | mk a =>
        cases j with
        | mk b => exact congrArg InstrumentId.mk (UInt32.toNat_inj.mp h)
  · rintro rfl
    rfl

namespace MdBooks

variable {b : MdBooks} {i j : InstrumentId} {s s' : BookSync}

@[simp] theorem sync?_countMessage : b.countMessage.sync? i = b.sync? i := rfl
@[simp] theorem sync?_countDelta : b.countDelta.sync? i = b.sync? i := rfl
@[simp] theorem sync?_countInvalidation : b.countInvalidation.sync? i = b.sync? i := rfl
@[simp] theorem sync?_countSnapshot : b.countSnapshot.sync? i = b.sync? i := rfl
@[simp] theorem sync?_countPassed : b.countPassed.sync? i = b.sync? i := rfl
@[simp] theorem sync?_countMismatch : b.countMismatch.sync? i = b.sync? i := rfl
@[simp] theorem sync?_feedShadow (update : DepthUpdate) :
    (b.feedShadow update).sync? i = b.sync? i := rfl

@[simp] theorem shadow_countMessage : b.countMessage.shadow = b.shadow := rfl
@[simp] theorem shadow_countDelta : b.countDelta.shadow = b.shadow := rfl
@[simp] theorem shadow_countInvalidation : b.countInvalidation.shadow = b.shadow := rfl
@[simp] theorem shadow_countSnapshot : b.countSnapshot.shadow = b.shadow := rfl
@[simp] theorem shadow_countPassed : b.countPassed.shadow = b.shadow := rfl
@[simp] theorem shadow_countMismatch : b.countMismatch.shadow = b.shadow := rfl
@[simp] theorem shadow_setSync : (b.setSync i s).shadow = b.shadow := rfl

@[simp] theorem sync?_cancelVerification : b.cancelVerification.sync? i = b.sync? i := by
  unfold cancelVerification
  split <;> rfl

theorem sync?_setSync_self (h : b.sync? i = some s) : (b.setSync i s').sync? i = some s' := by
  obtain ⟨hlt, _⟩ := List.getElem?_eq_some_iff.mp h
  exact List.getElem?_set_self hlt

theorem sync?_setSync_of_ne (h : i ≠ j) : (b.setSync j s).sync? i = b.sync? i :=
  List.getElem?_set_ne fun heq => h (InstrumentId.index_inj.mp heq).symm

/-- A book is live, or shown, as its sync says. -/
theorem isLive_of_sync (h : b.sync? i = some s) : b.isLive i = s.isLive := by
  rw [isLive, h]
  rfl

theorem book_of_sync (h : b.sync? i = some s) : b.book i = s.book := by
  rw [book, h]
  rfl

theorem isLive_of_sync_none (h : b.sync? i = none) : b.isLive i = false := by
  rw [isLive, h]
  rfl

theorem isLive_congr {b' : MdBooks} (h : b'.sync? i = b.sync? i) : b'.isLive i = b.isLive i := by
  rw [isLive, isLive, h]

/-- What no operation changes. -/
structure SameTable (b b' : MdBooks) : Prop where
  instruments : b'.instruments = b.instruments
  perMessage : b'.maxLevelsPerMessage = b.maxLevelsPerMessage
  levels : b'.snapshotLevels = b.snapshotLevels
  length : b'.syncs.length = b.syncs.length

theorem SameTable.refl (b : MdBooks) : SameTable b b := ⟨rfl, rfl, rfl, rfl⟩

theorem SameTable.trans {b₁ b₂ b₃ : MdBooks} (h : SameTable b₁ b₂) (h' : SameTable b₂ b₃) :
    SameTable b₁ b₃ :=
  ⟨h'.instruments.trans h.instruments, h'.perMessage.trans h.perMessage,
    h'.levels.trans h.levels, h'.length.trans h.length⟩

theorem SameTable.setSync (b : MdBooks) (i : InstrumentId) (s : BookSync) :
    SameTable b (b.setSync i s) := ⟨rfl, rfl, rfl, List.length_set⟩

/-- Counters and the verification are no part of it. -/
theorem SameTable.with {b b' : MdBooks} (h : SameTable b b') (stats : MdStats) (shadow : Shadow) :
    SameTable b { b' with stats, shadow } := ⟨h.instruments, h.perMessage, h.levels, h.length⟩

theorem SameTable.cancelVerification (b : MdBooks) : SameTable b b.cancelVerification := by
  unfold MdBooks.cancelVerification
  split <;> exact ⟨rfl, rfl, rfl, rfl⟩

/-! ## §2 Settled -/

/-- Two syncs that are compared: a loaded verification of `i` and the live sync
of `i`, at the same update `n`. -/
structure Compared (b : MdBooks) (i : InstrumentId) (live : BookSync) (n : Nat) : Prop where
  verifying : b.shadow.instrument = some i
  loaded : b.shadow.loaded = true
  sync : b.sync? i = some live
  live : live.lastSeq = some n
  rebuilt : b.shadow.sync.lastSeq = some n

/-- Everything `settle_verification` can do. -/
inductive Settled (b : MdBooks) : Option Mismatch → MdBooks → Prop
  | waiting (h : ∀ i live n, ¬ b.Compared i live n) : Settled b none b
  | passed {i : InstrumentId} {live : BookSync} {n : Nat} (h : b.Compared i live n)
      (hverdict : verdict live b.shadow.sync n = none) :
      Settled b none b.cancelVerification.countPassed
  | mismatch {i : InstrumentId} {live : BookSync} {n : Nat} {m : Mismatch}
      (h : b.Compared i live n) (hverdict : verdict live b.shadow.sync n = some m) :
      Settled b (some m)
        (b.cancelVerification.countMismatch.countInvalidation.setSync i live.reset)

theorem settleVerification_eq {live : BookSync} {n : Nat} (h : b.Compared i live n) :
    b.settleVerification = b.settleVerdict i (verdict live b.shadow.sync n) := by
  simp [settleVerification, h.verifying, h.loaded, h.sync, h.live, h.rebuilt]

theorem settleVerification_waiting (h : ∀ i live n, ¬ b.Compared i live n) :
    b.settleVerification = (none, b) := by
  unfold settleVerification
  split
  · rfl
  · rename_i i hverifying
    split_ifs with hloaded
    · rfl
    · split
      · rfl
      · rename_i live hsync
        split
        · rename_i n n' hseq hshadow
          by_cases hne : n ≠ n'
          · rw [if_pos hne]
          · have heq : n = n' := not_not.mp hne
            subst heq
            exact absurd ⟨hverifying, by simpa using hloaded, hsync, hseq, hshadow⟩ (h i live n)
        · rfl

theorem settleVerification_settled (b : MdBooks) :
    Settled b b.settleVerification.1 b.settleVerification.2 := by
  by_cases h : ∃ i live n, b.Compared i live n
  · obtain ⟨i, live, n, h⟩ := h
    rw [settleVerification_eq h]
    cases hverdict : verdict live b.shadow.sync n with
    | none => exact .passed h hverdict
    | some m =>
        have hafter : b.cancelVerification.countMismatch.countInvalidation.sync? i = some live := by
          simpa using h.sync
        simp only [settleVerdict, hafter]
        exact .mismatch h hverdict
  · have hnone : ∀ i live n, ¬ b.Compared i live n := fun i live n hc => h ⟨i, live, n, hc⟩
    rw [settleVerification_waiting hnone]
    exact .waiting hnone

/-- Everything `apply` can do with a decoded message. -/
inductive UpdateStep (b : MdBooks) (update : DepthUpdate) : Except String Applied → MdBooks → Prop
  | unconfigured (hsync : b.sync? update.instrument = none) :
      UpdateStep b update (.error "message for an unconfigured instrument") b
  | failed {s s' : BookSync} {err : SyncError} (hsync : b.sync? update.instrument = some s)
      (hdelta : s.onDelta update.range update.updates = (.error err, s')) :
      UpdateStep b update (.ok (.down update.instrument (.sync err)))
        (if b.shadow.instrument = some update.instrument then
          (b.setSync update.instrument s').cancelVerification
        else b.setSync update.instrument s').countInvalidation
  | kept {s s' : BookSync} {outcome : DeltaOutcome} (hsync : b.sync? update.instrument = some s)
      (hdelta : s.onDelta update.range update.updates = (.ok outcome, s'))
      (hne : outcome ≠ .applied) :
      UpdateStep b update (.ok .quiet)
        (if b.shadow.instrument = some update.instrument then
          (b.setSync update.instrument s').feedShadow update
        else b.setSync update.instrument s')
  | applied {s s' : BookSync} (hsync : b.sync? update.instrument = some s)
      (hdelta : s.onDelta update.range update.updates = (.ok .applied, s'))
      (hother : b.shadow.instrument ≠ some update.instrument) :
      UpdateStep b update (.ok (.book update.instrument update.eventTime))
        (b.setSync update.instrument s').countDelta
  | passed {s s' : BookSync} {b' : MdBooks} (hsync : b.sync? update.instrument = some s)
      (hdelta : s.onDelta update.range update.updates = (.ok .applied, s'))
      (hverifying : b.shadow.instrument = some update.instrument)
      (hsettled : Settled ((b.setSync update.instrument s').countDelta.feedShadow update) none b') :
      UpdateStep b update (.ok (.book update.instrument update.eventTime)) b'
  | mismatch {s s' : BookSync} {m : Mismatch} {b' : MdBooks}
      (hsync : b.sync? update.instrument = some s)
      (hdelta : s.onDelta update.range update.updates = (.ok .applied, s'))
      (hverifying : b.shadow.instrument = some update.instrument)
      (hsettled : Settled ((b.setSync update.instrument s').countDelta.feedShadow update)
        (some m) b') :
      UpdateStep b update (.ok (.down update.instrument (.mismatch m))) b'

theorem applyUpdate_step (b : MdBooks) (update : DepthUpdate) :
    UpdateStep b update (b.applyUpdate update).1 (b.applyUpdate update).2 := by
  unfold applyUpdate
  cases hsync : b.sync? update.instrument with
  | none => exact .unconfigured hsync
  | some s =>
      dsimp only
      rw [shadow_setSync]
      cases hdelta : s.onDelta update.range update.updates with
      | mk res s' =>
          cases res with
          | error err =>
              have hstep := UpdateStep.failed hsync hdelta
              by_cases hverifying : b.shadow.instrument = some update.instrument
              · simpa only [hverifying, decide_true, if_true] using hstep
              · simpa only [hverifying, decide_false, Bool.false_eq_true, if_false] using hstep
          | ok outcome =>
              by_cases hverifying : b.shadow.instrument = some update.instrument
              · simp only [hverifying, decide_true, if_true]
                cases outcome with
                | applied =>
                    have hsettled := settleVerification_settled
                      ((b.setSync update.instrument s').countDelta.feedShadow update)
                    dsimp only
                    split <;> rename_i heq <;> rw [heq] at hsettled
                    · exact .mismatch hsync hdelta hverifying hsettled
                    · exact .passed hsync hdelta hverifying hsettled
                | buffered =>
                    have hstep := UpdateStep.kept hsync hdelta nofun
                    simpa only [hverifying, if_true] using hstep
                | stale =>
                    have hstep := UpdateStep.kept hsync hdelta nofun
                    simpa only [hverifying, if_true] using hstep
              · simp only [hverifying, decide_false, Bool.false_eq_true, if_false]
                cases outcome with
                | applied => exact .applied hsync hdelta hverifying
                | buffered =>
                    have hstep := UpdateStep.kept hsync hdelta nofun
                    simpa only [hverifying, if_false] using hstep
                | stale =>
                    have hstep := UpdateStep.kept hsync hdelta nofun
                    simpa only [hverifying, if_false] using hstep

theorem Settled.sameTable {m : Option Mismatch} {b' : MdBooks} (h : Settled b m b') :
    SameTable b b' := by
  have hcancel := SameTable.cancelVerification b
  cases h with
  | waiting _ => exact .refl b
  | passed _ _ => exact hcancel.with _ _
  | mismatch _ _ => exact ((hcancel.with _ _).with _ _).trans (.setSync _ _ _)

theorem UpdateStep.sameTable {update : DepthUpdate} {res : Except String Applied} {b' : MdBooks}
    (h : UpdateStep b update res b') : SameTable b b' := by
  cases h with
  | unconfigured _ => exact .refl b
  | failed hsync hdelta =>
      rename_i s s' err
      have hset := SameTable.setSync b update.instrument s'
      split
      · exact (hset.trans (.cancelVerification _)).with _ _
      · exact hset.with _ _
  | kept hsync hdelta hne =>
      rename_i s s' outcome
      have hset := SameTable.setSync b update.instrument s'
      split
      · exact hset.with _ _
      · exact hset
  | applied _ _ _ => exact (SameTable.setSync b update.instrument _).with _ _
  | passed _ _ _ hsettled =>
      exact ((SameTable.setSync b update.instrument _).with _ _).trans hsettled.sameTable
  | mismatch _ _ _ hsettled =>
      exact ((SameTable.setSync b update.instrument _).with _ _).trans hsettled.sameTable

end MdBooks

/-- A raw snapshot that decodes does what the decoded one does. -/
theorem MdBooks.onRawSnapshot_eq {b : MdBooks} {i : InstrumentId} {info : Instrument}
    {body : Bytes} {snap : DepthSnapshot} (hinfo : b.instruments.get i = some info)
    (hdecode : decodeSnapshot info b.snapshotLevels body = .ok snap) (time : WallTime) :
    b.onRawSnapshot i body time = b.onSnapshot i snap time := by
  unfold onRawSnapshot onSnapshot
  rw [hinfo]
  cases b.sync? i with
  | none => rfl
  | some s =>
      simp only
      rw [hdecode]

theorem MdBooks.onRawVerificationSnapshot_eq {b : MdBooks} {i : InstrumentId} {info : Instrument}
    {body : Bytes} {snap : DepthSnapshot} (hinfo : b.instruments.get i = some info)
    (hdecode : decodeSnapshot info b.snapshotLevels body = .ok snap) :
    b.onRawVerificationSnapshot i body = b.onVerificationSnapshot i snap := by
  unfold onRawVerificationSnapshot onVerificationSnapshot
  rw [hinfo]
  simp only
  rw [hdecode]

/-- A verification snapshot is loaded only while a verification of its instrument waits
for one. -/
theorem MdBooks.onVerificationSnapshot_cases (b : MdBooks) (i : InstrumentId) (snap : DepthSnapshot) :
    (¬ (b.shadow.instrument = some i ∧ b.shadow.loaded = false) ∧
        b.onVerificationSnapshot i snap = (.notRunning, b, [])) ∨
      ((b.shadow.instrument = some i ∧ b.shadow.loaded = false) ∧
        b.onVerificationSnapshot i snap =
          (b.loadShadow snap).2.afterVerificationSnapshot i (b.loadShadow snap).1) := by
  by_cases hwaiting : b.shadow.instrument = some i ∧ b.shadow.loaded = false
  · exact .inr ⟨hwaiting, if_neg (by simp [hwaiting])⟩
  · refine .inl ⟨hwaiting, if_pos ?_⟩
    by_contra hrunning
    exact hwaiting (by simpa using hrunning)

/-- A body is refused, does not decode, or is its decoded snapshot. -/
theorem MdBooks.onRawVerificationSnapshot_cases (b : MdBooks) (i : InstrumentId) (body : Bytes) :
    b.onRawVerificationSnapshot i body = (.notRunning, b, []) ∨
      (b.shadow.instrument = some i ∧
        b.onRawVerificationSnapshot i body = b.afterVerificationSnapshot i false) ∨
      ∃ info snap, b.instruments.get i = some info ∧
        decodeSnapshot info b.snapshotLevels body = .ok snap ∧
        b.onRawVerificationSnapshot i body = b.onVerificationSnapshot i snap := by
  cases hinfo : b.instruments.get i with
  | none =>
      left
      unfold onRawVerificationSnapshot
      rw [hinfo]
      split <;> rfl
  | some info =>
      cases hdecode : decodeSnapshot info b.snapshotLevels body with
      | ok snap => exact .inr (.inr ⟨info, snap, rfl, hdecode, onRawVerificationSnapshot_eq hinfo hdecode⟩)
      | error err =>
          unfold onRawVerificationSnapshot
          rw [hinfo]
          simp only [hdecode]
          split_ifs with hrunning
          · exact .inl rfl
          · obtain ⟨hverifying, -⟩ : b.shadow.instrument = some i ∧ b.shadow.loaded = false := by
              simpa using hrunning
            exact .inr (.inl ⟨hverifying, rfl⟩)

/-! ## §3 Holds -/

/-- A call of one of the operations. -/
inductive BooksOp where
  | message (bytes : Bytes)
  | snapshot (instrument : InstrumentId) (snapshot : DepthSnapshot) (fetchedAt : WallTime)
  | rawSnapshot (instrument : InstrumentId) (body : Bytes) (fetchedAt : WallTime)
  | startVerification (instrument : InstrumentId)
  | verificationSnapshot (instrument : InstrumentId) (snapshot : DepthSnapshot)
  | rawVerificationSnapshot (instrument : InstrumentId) (body : Bytes)
  | cancelVerification
  | resetAll
  deriving DecidableEq, Repr

/-- The books after a call. -/
def BooksOp.run (b : MdBooks) : BooksOp → MdBooks
  | .message bytes => (b.onMessage bytes).2.1
  | .snapshot instrument snap fetchedAt => (b.onSnapshot instrument snap fetchedAt).2.1
  | .rawSnapshot instrument body fetchedAt => (b.onRawSnapshot instrument body fetchedAt).2.1
  | .startVerification instrument => (b.startVerification instrument).2
  | .verificationSnapshot instrument snap => (b.onVerificationSnapshot instrument snap).2.1
  | .rawVerificationSnapshot instrument body => (b.onRawVerificationSnapshot instrument body).2.1
  | .cancelVerification => b.cancelVerification
  | .resetAll => b.resetAll

/-- The sync call a snapshot makes. -/
def DepthSnapshot.call (snapshot : DepthSnapshot) : SyncCall :=
  .snapshot snapshot.lastUpdateId snapshot.bids snapshot.asks

/-- The sync call an update makes. -/
def DepthUpdate.call (update : DepthUpdate) : SyncCall := .delta update.range update.updates

/-- The calls on syncs that an operation may make are all as `M` says. -/
def BooksOp.Meets (M : InstrumentId → SyncCall → Prop) (b : MdBooks) : BooksOp → Prop
  | .message bytes => ∀ update,
      decodeUpdate b.instruments b.maxLevelsPerMessage bytes = .ok update →
        M update.instrument update.call
  | .snapshot instrument snap _ => M instrument snap.call
  | .rawSnapshot instrument body _ | .rawVerificationSnapshot instrument body =>
      ∀ info snap, b.instruments.get instrument = some info →
        decodeSnapshot info b.snapshotLevels body = .ok snap → M instrument snap.call
  | .verificationSnapshot instrument snap => M instrument snap.call
  | .startVerification _ | .cancelVerification | .resetAll => True

/-- A property of an instrument's sync that the calls `M` keep. A reset sync may
be used for any instrument. -/
structure Kept (P : InstrumentId → BookSync → Prop) (M : InstrumentId → SyncCall → Prop) :
    Prop where
  call : ∀ {i s c}, P i s → M i c → P i (c.run s)
  reset : ∀ {i s} (j), P i s → P j s.reset

namespace MdBooks

variable {P : InstrumentId → BookSync → Prop} {M : InstrumentId → SyncCall → Prop}

/-- The property holds of every sync, and of the verification sync for the
instrument it verifies. -/
structure Holds (P : InstrumentId → BookSync → Prop) (b : MdBooks) : Prop where
  live : ∀ i s, b.sync? i = some s → P i s
  shadow : ∃ i, P i b.shadow.sync ∧ ∀ j, b.shadow.instrument = some j → j = i

variable {b : MdBooks} {i : InstrumentId} {s : BookSync}

theorem Holds.verifying (h : b.Holds P) (hi : b.shadow.instrument = some i) :
    P i b.shadow.sync := by
  obtain ⟨j, hP, hj⟩ := h.shadow
  rw [hj i hi]
  exact hP

theorem Holds.setSync (h : b.Holds P) (hs : P i s) : (b.setSync i s).Holds P := by
  refine ⟨fun j s' hj => ?_, h.shadow⟩
  by_cases hne : j = i
  · subst hne
    cases hsync : b.sync? j with
    | none =>
        have hlen := List.getElem?_eq_none_iff.mp hsync
        have hnone : (b.setSync j s).sync? j = none := by
          refine List.getElem?_eq_none_iff.mpr ?_
          show (b.syncs.set _ s).length ≤ _
          rw [List.length_set]
          exact hlen
        rw [hnone] at hj
        cases hj
    | some old =>
        rw [sync?_setSync_self hsync] at hj
        cases hj
        exact hs
  · rw [sync?_setSync_of_ne hne] at hj
    exact h.live j s' hj

theorem Holds.cancelVerification (hP : Kept P M) (h : b.Holds P) :
    b.cancelVerification.Holds P := by
  refine ⟨fun j s' hj => h.live j s' (by simpa using hj), ?_⟩
  obtain ⟨i, hi, hj⟩ := h.shadow
  unfold MdBooks.cancelVerification
  split
  · exact ⟨i, hP.reset i hi, nofun⟩
  · exact ⟨i, hi, hj⟩

theorem Settled.holds (hP : Kept P M) (h : b.Holds P) {m : Option Mismatch} {b' : MdBooks}
    (hsettled : Settled b m b') : b'.Holds P := by
  have hcancel := h.cancelVerification hP
  cases hsettled with
  | waiting _ => exact h
  | passed _ _ => exact ⟨hcancel.live, hcancel.shadow⟩
  | mismatch hc _ =>
      exact Holds.setSync ⟨hcancel.live, hcancel.shadow⟩ (hP.reset _ (h.live _ _ hc.sync))

theorem Holds.feedShadow (hP : Kept P M) (h : b.Holds P) {update : DepthUpdate}
    (hi : b.shadow.instrument = some update.instrument) (hM : M update.instrument update.call) :
    (b.feedShadow update).Holds P := by
  refine ⟨h.live, update.instrument, hP.call (h.verifying hi) hM, fun j hj => ?_⟩
  rw [show b.shadow.instrument = some j from hj] at hi
  cases hi
  rfl

theorem UpdateStep.holds (hP : Kept P M) (h : b.Holds P) {update : DepthUpdate}
    {res : Except String Applied} {b' : MdBooks} (hstep : UpdateStep b update res b')
    (hM : M update.instrument update.call) : b'.Holds P := by
  have hset : ∀ {s r s'}, b.sync? update.instrument = some s →
      s.onDelta update.range update.updates = (r, s') →
      (b.setSync update.instrument s').Holds P := by
    intro s r s' hsync hdelta
    have hcall := hP.call (h.live _ _ hsync) hM
    rw [show update.call.run s = s' from congrArg Prod.snd hdelta] at hcall
    exact h.setSync hcall
  cases hstep with
  | unconfigured _ => exact h
  | failed hsync hdelta =>
      have hset := hset hsync hdelta
      have hcancel := hset.cancelVerification hP
      split
      · exact ⟨hcancel.live, hcancel.shadow⟩
      · exact ⟨hset.live, hset.shadow⟩
  | kept hsync hdelta hne =>
      have hset := hset hsync hdelta
      split
      · rename_i hverifying
        exact hset.feedShadow hP hverifying hM
      · exact hset
  | applied hsync hdelta hother =>
      have hset := hset hsync hdelta
      exact ⟨hset.live, hset.shadow⟩
  | passed hsync hdelta hverifying hsettled =>
      have hset := hset hsync hdelta
      have hcount : (b.setSync update.instrument _).countDelta.Holds P := ⟨hset.live, hset.shadow⟩
      exact hsettled.holds hP (hcount.feedShadow hP hverifying hM)
  | mismatch hsync hdelta hverifying hsettled =>
      have hset := hset hsync hdelta
      have hcount : (b.setSync update.instrument _).countDelta.Holds P := ⟨hset.live, hset.shadow⟩
      exact hsettled.holds hP (hcount.feedShadow hP hverifying hM)

/-- Decoding fails, or `apply` goes on with the update. -/
theorem onMessage_cases (b : MdBooks) (bytes : Bytes) :
    (∃ err, b.onMessage bytes = (.error err, b.countMessage, [])) ∨
      ∃ update, decodeUpdate b.instruments b.maxLevelsPerMessage bytes = .ok update ∧
        b.onMessage bytes =
          match b.countMessage.applyUpdate update with
          | (.ok applied, b) => (.ok applied, b, b.report applied)
          | (.error err, b) => (.error err, b, []) := by
  unfold onMessage apply
  cases hdecode : decodeUpdate b.instruments b.maxLevelsPerMessage bytes with
  | error err =>
      simp only [show decodeUpdate b.countMessage.instruments b.countMessage.maxLevelsPerMessage
        bytes = .error err from hdecode]
      exact Or.inl ⟨_, rfl⟩
  | ok update =>
      simp only [show decodeUpdate b.countMessage.instruments b.countMessage.maxLevelsPerMessage
        bytes = .ok update from hdecode]
      exact Or.inr ⟨update, rfl, rfl⟩

theorem Holds.onMessage (hP : Kept P M) (h : b.Holds P) {bytes : Bytes}
    (hM : BooksOp.Meets M b (.message bytes)) : (b.onMessage bytes).2.1.Holds P := by
  have hcount : b.countMessage.Holds P := ⟨h.live, h.shadow⟩
  rcases onMessage_cases b bytes with ⟨err, heq⟩ | ⟨update, hdecode, heq⟩
  · rw [heq]
    exact hcount
  · have hstep := (applyUpdate_step b.countMessage update).holds hP hcount (hM update hdecode)
    rw [heq]
    split <;> rename_i hres <;> rw [hres] at hstep <;> exact hstep

theorem Holds.settle (h : b.Holds P) {res : Except SyncError Bool × BookSync} (hs : P i res.2)
    (fetchedAt : WallTime) : (b.settle i res fetchedAt).2.1.Holds P := by
  have hset := h.setSync hs
  unfold MdBooks.settle
  dsimp only
  split
  · split <;> exact ⟨hset.live, hset.shadow⟩
  · exact hset
  · exact hset
  · exact ⟨hset.live, hset.shadow⟩

theorem Holds.afterVerificationSnapshot (hP : Kept P M) (h : b.Holds P) (loaded : Bool) :
    (b.afterVerificationSnapshot i loaded).2.1.Holds P := by
  unfold MdBooks.afterVerificationSnapshot
  cases loaded with
  | false => exact h.cancelVerification hP
  | true =>
      have hloaded : Holds P { b with shadow := { b.shadow with loaded := true } } :=
        ⟨h.live, h.shadow⟩
      have hsettled := (settleVerification_settled _).holds hP hloaded
      simp only [Bool.not_true, Bool.false_eq_true, if_false]
      split <;> rename_i heq <;> rw [heq] at hsettled <;> exact hsettled

theorem Holds.loadShadow (hP : Kept P M) (h : b.Holds P) (hi : b.shadow.instrument = some i)
    {snap : DepthSnapshot} (hM : M i snap.call) : (b.loadShadow snap).2.Holds P := by
  refine ⟨h.live, i, hP.call (h.verifying hi) hM, fun j hj => ?_⟩
  rw [show b.shadow.instrument = some j from hj] at hi
  cases hi
  rfl

theorem Holds.onVerificationSnapshot (hP : Kept P M) (h : b.Holds P) {snap : DepthSnapshot}
    (hM : M i snap.call) : (b.onVerificationSnapshot i snap).2.1.Holds P := by
  rcases b.onVerificationSnapshot_cases i snap with ⟨-, heq⟩ | ⟨⟨hverifying, -⟩, heq⟩
  · rw [heq]
    exact h
  · rw [heq]
    exact (h.loadShadow hP hverifying hM).afterVerificationSnapshot hP _

theorem Holds.onRawVerificationSnapshot (hP : Kept P M) (h : b.Holds P) {body : Bytes}
    (hM : BooksOp.Meets M b (.rawVerificationSnapshot i body)) :
    (b.onRawVerificationSnapshot i body).2.1.Holds P := by
  rcases b.onRawVerificationSnapshot_cases i body with heq | ⟨-, heq⟩ | ⟨info, snap, hinfo, hdecode, heq⟩
  · rw [heq]
    exact h
  · rw [heq]
    exact h.afterVerificationSnapshot hP false
  · rw [heq]
    exact h.onVerificationSnapshot hP (hM info snap hinfo hdecode)

theorem sync?_resetAll : b.resetAll.sync? i = (b.sync? i).map BookSync.reset := by
  unfold resetAll
  rw [sync?_cancelVerification]
  exact List.getElem?_map

/-- Every operation keeps what its calls on syncs keep. -/
theorem Holds.run (hP : Kept P M) (h : b.Holds P) {op : BooksOp} (hM : op.Meets M b) :
    (op.run b).Holds P := by
  cases op with
  | message bytes => exact h.onMessage hP hM
  | snapshot i snap fetchedAt =>
      show (b.onSnapshot i snap fetchedAt).2.1.Holds P
      unfold MdBooks.onSnapshot
      cases hsync : b.sync? i with
      | none => exact h
      | some s => exact h.settle (hP.call (h.live i s hsync) hM) fetchedAt
  | rawSnapshot i body fetchedAt =>
      show (b.onRawSnapshot i body fetchedAt).2.1.Holds P
      unfold MdBooks.onRawSnapshot
      cases hinfo : b.instruments.get i with
      | none => exact h
      | some info =>
          cases hsync : b.sync? i with
          | none => exact h
          | some s =>
              cases hdecode : decodeSnapshot info b.snapshotLevels body with
              | error err =>
                  simp only [hdecode]
                  exact h
              | ok snap =>
                  simp only [hdecode]
                  exact h.settle (hP.call (h.live i s hsync) (hM info snap hinfo hdecode)) fetchedAt
  | startVerification i =>
      show (b.startVerification i).2.Holds P
      unfold MdBooks.startVerification
      split
      · exact h
      · obtain ⟨j, hj, _⟩ := h.shadow
        exact ⟨h.live, i, hP.reset i hj, fun k hk => by cases hk; rfl⟩
  | verificationSnapshot i snap => exact h.onVerificationSnapshot hP hM
  | rawVerificationSnapshot i body => exact h.onRawVerificationSnapshot hP hM
  | cancelVerification => exact h.cancelVerification hP
  | resetAll =>
      have hreset : Holds P { b with syncs := b.syncs.map BookSync.reset } := by
        refine ⟨fun j s hj => ?_, h.shadow⟩
        have hmap : (b.sync? j).map BookSync.reset = some s := by
          rw [← hj]
          exact List.getElem?_map.symm
        obtain ⟨old, hold, rfl⟩ := Option.map_eq_some_iff.mp hmap
        exact hP.reset j (h.live j old hold)
      exact hreset.cancelVerification hP

/-- New books: a copy of one new sync for each instrument and the shadow. -/
theorem new_eq {table : InstrumentTable} {config : SyncConfig} {perMessage levels : Nat}
    (hnew : MdBooks.new table config perMessage levels = some b) :
    ∃ s, BookSync.new config = .ok s ∧
      b = ⟨table, table.instruments.map fun _ => s, ⟨none, s, false⟩, perMessage, levels, .zero⟩ := by
  unfold MdBooks.new at hnew
  cases hsync : BookSync.new config with
  | error err => simp [hsync, Except.toOption] at hnew
  | ok s =>
      have hmap : ∀ xs : List Instrument,
          (xs.mapM fun _ => (Except.toOption (.ok s : Except BookError BookSync))) =
            some (xs.map fun _ => s) := by
        intro xs
        induction xs with
        | nil => rfl
        | cons x xs ih =>
            rw [List.mapM_cons, ih]
            rfl
      rw [hsync, hmap] at hnew
      simp only [Except.toOption, Option.some.injEq] at hnew
      exact ⟨s, rfl, hnew.symm⟩

/-- New books hold what new syncs do. -/
theorem Holds.new {table : InstrumentTable} {config : SyncConfig} {perMessage levels : Nat}
    (hnew : MdBooks.new table config perMessage levels = some b)
    (hP : ∀ i s, BookSync.new config = .ok s → P i s) : b.Holds P := by
  obtain ⟨s, hsync, rfl⟩ := new_eq hnew
  refine ⟨fun i s' hs => ?_, ⟨0⟩, hP _ s hsync, nofun⟩
  obtain ⟨_, _, rfl⟩ := List.mem_map.mp (List.mem_of_getElem? hs)
  exact hP i s hsync

theorem settle_sameTable (b : MdBooks) (i : InstrumentId) (res : Except SyncError Bool × BookSync)
    (time : WallTime) : SameTable b (b.settle i res time).2.1 := by
  have hset := SameTable.setSync b i res.2
  unfold settle
  dsimp only
  split
  · split
    · exact hset.with _ _
    · exact hset
  · exact hset
  · exact hset
  · exact hset.with _ _

theorem afterVerificationSnapshot_sameTable (b : MdBooks) (i : InstrumentId) (loaded : Bool) :
    SameTable b (b.afterVerificationSnapshot i loaded).2.1 := by
  unfold afterVerificationSnapshot
  cases loaded with
  | false => exact .cancelVerification b
  | true =>
      have hsettled := (settleVerification_settled
        { b with shadow := { b.shadow with loaded := true } }).sameTable
      simp only [Bool.not_true, Bool.false_eq_true, if_false]
      split <;> rename_i heq <;> rw [heq] at hsettled <;>
        exact ((SameTable.refl b).with _ _).trans hsettled

theorem onVerificationSnapshot_sameTable (b : MdBooks) (i : InstrumentId) (snap : DepthSnapshot) :
    SameTable b (b.onVerificationSnapshot i snap).2.1 := by
  rcases b.onVerificationSnapshot_cases i snap with ⟨-, heq⟩ | ⟨-, heq⟩
  · rw [heq]
    exact .refl b
  · rw [heq]
    exact ((SameTable.refl b).with _ _).trans (afterVerificationSnapshot_sameTable _ i _)

/-- No operation changes the instruments, the limits or the number of books. -/
theorem run_sameTable (b : MdBooks) (op : BooksOp) : SameTable b (op.run b) := by
  cases op with
  | message bytes =>
      show SameTable b (b.onMessage bytes).2.1
      rcases onMessage_cases b bytes with ⟨err, heq⟩ | ⟨update, _, heq⟩
      · rw [heq]
        exact (SameTable.refl b).with _ _
      · have hstep := (applyUpdate_step b.countMessage update).sameTable
        rw [heq]
        split <;> rename_i hres <;> rw [hres] at hstep <;>
          exact ((SameTable.refl b).with _ _).trans hstep
  | snapshot i snap time =>
      show SameTable b (b.onSnapshot i snap time).2.1
      unfold onSnapshot
      split
      · exact .refl b
      · exact settle_sameTable b i _ time
  | rawSnapshot i body time =>
      show SameTable b (b.onRawSnapshot i body time).2.1
      unfold onRawSnapshot
      split
      · split
        · exact settle_sameTable b i _ time
        · exact .refl b
      · exact .refl b
  | startVerification i =>
      show SameTable b (b.startVerification i).2
      unfold startVerification
      split
      · exact .refl b
      · exact (SameTable.refl b).with _ _
  | verificationSnapshot i snap => exact onVerificationSnapshot_sameTable b i snap
  | rawVerificationSnapshot i body =>
      show SameTable b (b.onRawVerificationSnapshot i body).2.1
      rcases b.onRawVerificationSnapshot_cases i body with heq | ⟨-, heq⟩ | ⟨info, snap, -, -, heq⟩
      · rw [heq]
        exact .refl b
      · rw [heq]
        exact afterVerificationSnapshot_sameTable b i false
      · rw [heq]
        exact onVerificationSnapshot_sameTable b i snap
  | cancelVerification => exact .cancelVerification b
  | resetAll =>
      have hreset : SameTable b { b with syncs := b.syncs.map BookSync.reset } :=
        ⟨rfl, rfl, rfl, List.length_map _⟩
      exact hreset.trans (.cancelVerification _)

end MdBooks

/-- What is asked of an operation's calls does not change as books are run. -/
theorem BooksOp.Meets.sameTable {M : InstrumentId → SyncCall → Prop} {b b' : MdBooks}
    (h : b.SameTable b') {op : BooksOp} (hop : op.Meets M b) : op.Meets M b' := by
  have hiff : op.Meets M b ↔ op.Meets M b' := by
    cases op <;> simp only [BooksOp.Meets, h.instruments, h.perMessage, h.levels]
  exact hiff.mp hop

/-! The smallest books that the cases below are about: one instrument, with
prices and quantities in whole units. -/

/-- An increment of one unit. -/
def wholeUnits : Increment := .decimals 0

def btcUsdt : Instrument where
  id := ⟨0⟩
  venue := .binance
  symbol := .btcUsdt
  tick := wholeUnits
  lot := wholeUnits
  minNotional := .zero

def btcTable : InstrumentTable := ⟨[btcUsdt], by decide⟩

/-- A new sync of `config`. -/
def emptySync (config : SyncConfig) : BookSync :=
  ⟨⟨⟨.buy, [], config.levelsPerSide, none⟩, ⟨.sell, [], config.levelsPerSide, none⟩⟩,
    .awaitingSnapshot, [], [], config, ⟨0, 0, 0⟩⟩

/-- New books of the instrument. -/
def btcBooks (config : SyncConfig) : MdBooks :=
  ⟨btcTable, [emptySync config], ⟨none, emptySync config, false⟩, 10, 10, .zero⟩

/-- A message of the instrument, at update `id`, that sets one bid. -/
def bidMessage (id price qty : Nat) : Bytes :=
  ascii (s!"\x7b\"e\":\"depthUpdate\",\"E\":1,\"s\":\"BTCUSDT\",\"U\":{id},\"u\":{id}," ++
    s!"\"b\":[[\"{price}\",\"{qty}\"]],\"a\":[]\x7d")

example : MdBooks.new btcTable ⟨4, 4, 4⟩ 10 10 = some (btcBooks ⟨4, 4, 4⟩) := by decide

end Bowst.Venue
