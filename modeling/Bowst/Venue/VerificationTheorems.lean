/-
Bowst.Venue.VerificationTheorems — when verification takes a correct book down.

The live book and the book rebuilt from a fresh snapshot are both correct as far
as they go. They can go to different depths: a full ladder drops its worst level
and knows nothing beyond it from then on.

  §1 Ladders   — two ladders of one price map are ends of each other, and the
                 comparison sees no more than their lengths.
  §2 Exact     — the live and the rebuilt sync of an instrument with a faithful
                 feed follow its venue.
  §3 Verdict   — a mismatch is a difference in depth.
-/
import Bowst.L2.FeedTheorems
import Bowst.Venue.HandlerTheorems

namespace Bowst.Venue

open Bowst.Lib Bowst.Core Bowst.L2

/-! ## §1 Ladders -/

section Ladders

variable {l r : Ladder} {m : PriceMap}

theorem nthBest_eq (l : Ladder) (n : Nat) : l.nthBest n = l.levels.reverse[n]? := by
  unfold Ladder.nthBest
  by_cases h : n < l.levels.length
  · rw [if_neg (by omega), if_neg (by omega), List.getElem?_reverse h]
    congr 1
    omega
  · have hnone : l.levels.reverse[n]? = none := List.getElem?_eq_none (by simpa using h)
    rw [hnone]
    split_ifs
    · rfl
    · rfl
    · omega

/-- One of two horizons of a side covers all that the other does. -/
theorem horizon_total (hside : l.side = r.side) :
    (∀ p, l.isBeyondHorizon p = false → r.isBeyondHorizon p = false) ∨
      ∀ p, r.isBeyondHorizon p = false → l.isBeyondHorizon p = false := by
  simp only [Ladder.isBeyondHorizon_eq_false_iff, hside]
  cases hl : l.horizon with
  | none => exact Or.inr fun p _ => by simp
  | some a =>
      cases hr : r.horizon with
      | none => exact Or.inl fun p _ => by simp
      | some b =>
          simp only [Option.some.injEq, forall_eq']
          rcases le_total (r.side.key a) (r.side.key b) with hle | hle
          · exact Or.inr fun p hp => le_trans hle hp
          · exact Or.inl fun p hp => le_trans hle hp

/-- A ladder that covers less holds the best levels of one that covers more. -/
theorem levels_suffix (hl : l.Inv) (hr : r.Inv) (hside : l.side = r.side) (hlm : l.Refines m)
    (hrm : r.Refines m)
    (hcover : ∀ p, l.isBeyondHorizon p = false → r.isBeyondHorizon p = false) :
    l.levels <:+ r.levels := by
  have hkey : l.levelKey = r.levelKey := by
    funext level
    rw [Ladder.levelKey, Ladder.levelKey, hside]
  have hmem : ∀ level : Level, l.isBeyondHorizon level.price = false →
      (level ∈ l.levels ↔ level ∈ r.levels) := by
    intro level hknown
    rw [(Ladder.refines_iff hl.sorted m).mp hlm level.price level.qty hknown,
      (Ladder.refines_iff hr.sorted m).mp hrm level.price level.qty (hcover _ hknown)]
  have hsorted := hr.sorted
  rw [← hkey] at hsorted
  refine hl.sorted.suffix hsorted (fun x hx => (hmem x (hl.known x hx)).mp hx) ?_
  intro x hx y hy hle
  exact (hmem y (Ladder.isBeyondHorizon_of_le (hl.known x hx) hle)).mpr hy

/-- The levels that comparing two ladders can see. -/
def depth (l : Ladder) : Nat := min l.len verifyLevels

theorem nthBest_eq_none_iff {n : Nat} : l.nthBest n = none ↔ l.len ≤ n := by
  rw [nthBest_eq, List.getElem?_eq_none_iff, List.length_reverse]
  rfl

/-- Comparing finds nothing exactly if both sides show the same levels in range. -/
theorem compareSide_eq_none_iff (side : Side) (updateId : Nat) (count level : Nat) :
    compareSide side updateId l r count level = none ↔
      ∀ k, level ≤ k → k < level + count → l.nthBest k = r.nthBest k := by
  induction count generalizing level with
  | zero => simp [compareSide]; omega
  | succ count ih =>
      rw [compareSide]
      by_cases heq : l.nthBest level = r.nthBest level
      · rw [if_neg (not_not.mpr heq)]
        cases hlevel : l.nthBest level with
        | none =>
            -- nothing is left on either side, so the loop may stop
            have hl := nthBest_eq_none_iff.mp hlevel
            have hr := nthBest_eq_none_iff.mp (heq ▸ hlevel)
            simp only [Option.isNone_none, if_true, true_iff]
            intro k hk _
            rw [nthBest_eq_none_iff.mpr (le_trans hl hk), nthBest_eq_none_iff.mpr (le_trans hr hk)]
        | some x =>
            rw [if_neg (by simp), ih (level + 1)]
            constructor
            · intro h k hk hlt
              rcases Nat.eq_or_lt_of_le hk with rfl | hk'
              · exact heq
              · exact h k hk' (by omega)
            · intro h k hk hlt
              exact h k (by omega) (by omega)
      · rw [if_pos heq]
        simp only [reduceCtorEq, false_iff]
        intro h
        exact heq (h level le_rfl (by omega))

/-- Of two ladders, one holding the best levels of the other, the same levels
show in range exactly if they hold equally many. -/
theorem nthBest_eq_iff (h : l.levels <:+ r.levels) :
    (∀ k, 0 ≤ k → k < 0 + verifyLevels → l.nthBest k = r.nthBest k) ↔ depth l = depth r := by
  have hle : l.len ≤ r.len := h.length_le
  constructor
  · intro heq
    by_contra hne
    have hlt : l.len < r.len ∧ l.len < verifyLevels := by
      unfold depth at hne
      omega
    have hnone := heq l.len (Nat.zero_le _) (by omega)
    rw [nthBest_eq_none_iff.mpr le_rfl] at hnone
    have := nthBest_eq_none_iff.mp hnone.symm
    omega
  · intro hdepth k _ hk
    by_cases hin : k < l.len
    · obtain ⟨rest, hrest⟩ := List.reverse_prefix.mpr h
      rw [nthBest_eq, nthBest_eq, ← hrest, List.getElem?_append_left (by rw [List.length_reverse]; exact hin)]
    · have hr : r.len ≤ k := by
        unfold depth at hdepth
        omega
      rw [nthBest_eq_none_iff.mpr (by omega), nthBest_eq_none_iff.mpr hr]

/-- Two ladders that mean the same prices compare equal exactly if they hold
equally many levels, as far as is compared. -/
theorem compareSide_eq_none_iff_depth (hl : l.Inv) (hr : r.Inv) (hside : l.side = r.side)
    (hlm : l.Refines m) (hrm : r.Refines m) (side : Side) (updateId : Nat) :
    compareSide side updateId l r verifyLevels 0 = none ↔ depth l = depth r := by
  rw [compareSide_eq_none_iff]
  rcases horizon_total hside with hcover | hcover
  · exact nthBest_eq_iff (levels_suffix hl hr hside hlm hrm hcover)
  · have hsuffix := levels_suffix hr hl hside.symm hrm hlm hcover
    rw [eq_comm (a := depth l), ← nthBest_eq_iff hsuffix]
    simp only [eq_comm]

end Ladders

theorem compareBooks_eq_none_iff {live rebuilt : Book} {updateId : Nat} :
    compareBooks live rebuilt updateId = none ↔
      ∀ side, compareSide side updateId (live.side side) (rebuilt.side side) verifyLevels 0 =
        none := by
  unfold compareBooks
  cases hbuy : compareSide .buy updateId (live.side .buy) (rebuilt.side .buy) verifyLevels 0 with
  | some m =>
      simp only [Option.orElse_some, reduceCtorEq, false_iff]
      intro h
      rw [h .buy] at hbuy
      cases hbuy
  | none =>
      rw [Option.orElse_none]
      constructor
      · intro hsell side
        cases side with
        | buy => exact hbuy
        | sell => exact hsell
      · intro h
        exact h .sell

/-! ## §2 Exact -/

variable {v : L2.Venue} {i : InstrumentId}

/-- A sync that follows a venue, or has nothing to do with it. -/
structure Follows (v : L2.Venue) (i j : InstrumentId) (s : BookSync) : Prop where
  inv : s.Inv fun _ _ => True
  exact : j = i → ∃ o, Traced v.FaithfulDelta v.FaithfulSnapshot (s, o)

/-- Every call on the syncs of `i` is one its venue stands behind. -/
def FaithfulTo (v : L2.Venue) (i j : InstrumentId) (call : SyncCall) : Prop :=
  j = i → v.Faithful call

theorem kept_follows : Kept (Follows v i) (FaithfulTo v i) where
  call := by
    intro j s call h hcall
    refine ⟨SyncCall.run_inv h.inv (SyncCall.deltaIs_true _), fun hj => ?_⟩
    obtain ⟨o, ho⟩ := h.exact hj
    exact ⟨_, ho.step L2.Venue.faithfulDelta_valid L2.Venue.faithfulSnapshot_valid (hcall hj)⟩
  reset := by
    intro j s k h
    have hreset : ∀ D, s.reset.Inv D := fun D =>
      BookSync.invalidate_inv h.inv.book h.inv.ordered.storage
    exact ⟨hreset _, fun _ => ⟨none, hreset _, nofun⟩⟩

theorem Follows.new {config : SyncConfig} {s : BookSync} (hnew : BookSync.new config = .ok s)
    (j : InstrumentId) : Follows v i j s := by
  refine ⟨(BookSync.new_inv hnew).1, fun _ => ⟨none, (BookSync.new_inv hnew).1, fun n hn => ?_⟩⟩
  rw [(BookSync.new_inv (D := fun _ _ => True) hnew).2.2] at hn
  cases hn

/-- A live sync of the instrument means the venue's book. -/
theorem Follows.refines {s : BookSync} {n : Nat} (h : Follows v i i s)
    (hn : s.lastSeq = some n) :
    s.book = some s.internalBook ∧ s.internalBook.Inv s.config.levelsPerSide ∧
      s.internalBook.Refines (v.books n) := by
  have hstate := BookSync.state_of_lastSeq hn
  obtain ⟨o, ho⟩ := h.exact rfl
  obtain ⟨origin, _, hlast, hexplains⟩ := ho.live n hstate
  refine ⟨by simp [BookSync.book, hstate], ho.inv.book, ?_⟩
  rw [hlast, ← L2.Venue.explains_map_eq hexplains]
  exact hexplains.refines

/-! ## §3 Verdict -/

/-- Two books hold equally many levels on each side, as far as is compared. -/
def SameDepth (a b : BookSync) : Prop :=
  ∀ side, depth (a.internalBook.side side) = depth (b.internalBook.side side)

/-- Two syncs that follow a venue to the same update pass exactly if their books
have the same depth. -/
theorem verdict_eq_none_iff {live rebuilt : BookSync} {n : Nat} (hl : Follows v i i live)
    (hr : Follows v i i rebuilt) (hln : live.lastSeq = some n) (hrn : rebuilt.lastSeq = some n) :
    MdBooks.verdict live rebuilt n = none ↔ SameDepth live rebuilt := by
  obtain ⟨hlbook, hlinv, hlm⟩ := hl.refines hln
  obtain ⟨hrbook, hrinv, hrm⟩ := hr.refines hrn
  have hside : ∀ side, compareSide side n (live.internalBook.side side)
      (rebuilt.internalBook.side side) verifyLevels 0 = none ↔
        depth (live.internalBook.side side) = depth (rebuilt.internalBook.side side) := fun side =>
    compareSide_eq_none_iff_depth (hlinv.ladder side) (hrinv.ladder side)
      ((hlinv.sided side).trans (hrinv.sided side).symm) (hlm side) (hrm side) side n
  rw [MdBooks.verdict, hlbook, hrbook]
  simp only [compareBooks_eq_none_iff, hside]
  rfl

namespace BooksOp

/-- A verification of `i` ends in a mismatch. -/
def Mismatches (b : MdBooks) (i : InstrumentId) : BooksOp → Prop
  | .message bytes => ∃ m, (b.apply bytes).1 = .ok (.down i (.mismatch m))
  | .verificationSnapshot j snap => j = i ∧ ∃ m, (b.onVerificationSnapshot j snap).1 = .failed m
  | .rawVerificationSnapshot j body =>
      j = i ∧ ∃ m, (b.onRawVerificationSnapshot j body).1 = .failed m
  | _ => False

/-- The two syncs of `i` that a step compares and the update they are at: the
live one and the one rebuilt, with the message or snapshot of the step applied. -/
inductive Compares (b : MdBooks) (i : InstrumentId) :
    BooksOp → BookSync → BookSync → Nat → Prop
  | message {bytes : Bytes} {update : DepthUpdate} {live live' : BookSync} {n : Nat}
      (hdecode : decodeUpdate b.instruments b.maxLevelsPerMessage bytes = .ok update)
      (hi : update.instrument = i) (hverifying : b.shadow.instrument = some i)
      (hloaded : b.shadow.loaded = true) (hsync : b.sync? i = some live)
      (hdelta : live.onDelta update.range update.updates = (.ok .applied, live'))
      (hlive : live'.lastSeq = some n)
      (hrebuilt : (b.shadow.sync.onDelta update.range update.updates).2.lastSeq = some n) :
      Compares b i (.message bytes) live'
        (b.shadow.sync.onDelta update.range update.updates).2 n
  | snapshot {snap : DepthSnapshot} {live rebuilt : BookSync} {used : Bool} {n : Nat}
      (hverifying : b.shadow.instrument = some i) (hloaded : b.shadow.loaded = false)
      (hsync : b.sync? i = some live)
      (hload : b.shadow.sync.onSnapshot snap.lastUpdateId snap.bids snap.asks = (.ok used, rebuilt))
      (hlive : live.lastSeq = some n) (hrebuilt : rebuilt.lastSeq = some n) :
      Compares b i (.verificationSnapshot i snap) live rebuilt n
  | rawSnapshot {body : Bytes} {info : Instrument} {snap : DepthSnapshot}
      {live rebuilt : BookSync} {n : Nat} (hinfo : b.instruments.get i = some info)
      (hdecode : decodeSnapshot info b.snapshotLevels body = .ok snap)
      (hsnap : Compares b i (.verificationSnapshot i snap) live rebuilt n) :
      Compares b i (.rawVerificationSnapshot i body) live rebuilt n

end BooksOp

namespace MdBooks

variable {b : MdBooks}

theorem settleVerification_mismatch_iff {m : Mismatch} :
    b.settleVerification.1 = some m ↔
      ∃ i live n, b.Compared i live n ∧ verdict live b.shadow.sync n = some m := by
  constructor
  · intro h
    have hsettled := settleVerification_settled b
    rw [h] at hsettled
    generalize b.settleVerification.2 = b' at hsettled
    cases hsettled with
    | mismatch hc hverdict => exact ⟨_, _, _, hc, hverdict⟩
  · rintro ⟨i, live, n, hc, hverdict⟩
    rw [settleVerification_eq hc, hverdict]
    rfl

/-- A message ends a verification in a mismatch exactly if it makes the books be
compared, and they differ. -/
theorem apply_mismatch_iff {bytes : Bytes} :
    BooksOp.Mismatches b i (.message bytes) ↔ ∃ live rebuilt n m,
      BooksOp.Compares b i (.message bytes) live rebuilt n ∧ verdict live rebuilt n = some m := by
  constructor
  · rintro ⟨m, hm⟩
    unfold apply at hm
    dsimp only at hm
    split at hm
    · cases hm
    · rename_i update hdecode
      have hstep := applyUpdate_step b.countMessage update
      rw [hm] at hstep
      generalize (b.countMessage.applyUpdate update).2 = b' at hstep
      cases hstep with
      | mismatch hsync hdelta hverifying hsettled =>
          cases hsettled with
          | mismatch hc hverdict =>
              obtain rfl := Option.some.inj (hc.verifying.symm.trans hverifying)
              obtain rfl := Option.some.inj (hc.sync.symm.trans (sync?_setSync_self hsync))
              exact ⟨_, _, _, _, .message hdecode rfl hverifying hc.loaded hsync hdelta hc.live
                hc.rebuilt, hverdict⟩
  · rintro ⟨live, rebuilt, n, m, hc, hverdict⟩
    cases hc with
    | message hdecode hi hverifying hloaded hsync hdelta hlive hrebuilt =>
        subst hi
        rename_i update old
        have hcompared : ((b.countMessage.setSync update.instrument live).countDelta.feedShadow
            update).Compared update.instrument live n :=
          ⟨hverifying, hloaded, sync?_setSync_self hsync, hlive, hrebuilt⟩
        have hsettle := settleVerification_mismatch_iff.mpr ⟨_, _, _, hcompared, hverdict⟩
        have hsync' : b.countMessage.sync? update.instrument = some old := hsync
        have hverifying' : (b.countMessage.setSync update.instrument live).shadow.instrument =
            some update.instrument := hverifying
        refine ⟨m, ?_⟩
        simp only [apply, show decodeUpdate b.countMessage.instruments
          b.countMessage.maxLevelsPerMessage bytes = .ok update from hdecode, applyUpdate, hsync',
          hdelta, hverifying', decide_true, if_true]
        generalize ((b.countMessage.setSync update.instrument live).countDelta.feedShadow
          update).settleVerification = res at hsettle
        obtain ⟨res, b'⟩ := res
        simp only at hsettle
        rw [hsettle]

theorem afterVerificationSnapshot_failed_iff {loaded : Bool} {m : Mismatch} :
    (b.afterVerificationSnapshot i loaded).1 = .failed m ↔
      loaded = true ∧
        ({ b with shadow := { b.shadow with loaded := true } } : MdBooks).settleVerification.1 =
          some m := by
  unfold afterVerificationSnapshot
  cases loaded with
  | false => simp
  | true =>
      simp only [Bool.not_true, Bool.false_eq_true, if_false, true_and]
      generalize ({ b with shadow := { b.shadow with loaded := true } } : MdBooks).settleVerification
        = res
      obtain ⟨res, b'⟩ := res
      cases res with
      | none =>
          simp only [reduceCtorEq, iff_false]
          split_ifs <;> nofun
      | some m' => simp

theorem onVerificationSnapshot_failed_iff {snap : DepthSnapshot} {m : Mismatch} :
    (b.onVerificationSnapshot i snap).1 = .failed m ↔
      (b.shadow.instrument = some i ∧ b.shadow.loaded = false) ∧
        ((b.loadShadow snap).2.afterVerificationSnapshot i (b.loadShadow snap).1).1 = .failed m := by
  rcases b.onVerificationSnapshot_cases i snap with ⟨hother, heq⟩ | ⟨hwaiting, heq⟩
  · rw [heq]
    simp [hother]
  · rw [heq]
    simp [hwaiting]

theorem onVerificationSnapshot_mismatch_iff {snap : DepthSnapshot} :
    BooksOp.Mismatches b i (.verificationSnapshot i snap) ↔ ∃ live rebuilt n m,
      BooksOp.Compares b i (.verificationSnapshot i snap) live rebuilt n ∧
        verdict live rebuilt n = some m := by
  simp only [BooksOp.Mismatches, true_and, onVerificationSnapshot_failed_iff,
    afterVerificationSnapshot_failed_iff, settleVerification_mismatch_iff]
  constructor
  · rintro ⟨m, ⟨hverifying, hloaded⟩, hok, j, live, n, hc, hverdict⟩
    obtain rfl := Option.some.inj (hc.verifying.symm.trans hverifying)
    have hrebuilt := hc.rebuilt
    cases hload : b.shadow.sync.onSnapshot snap.lastUpdateId snap.bids snap.asks with
    | mk res rebuilt =>
        simp only [loadShadow, hload] at hok hverdict hrebuilt
        cases res with
        | error err => cases hok
        | ok used =>
            exact ⟨live, rebuilt, n, m,
              .snapshot hverifying hloaded hc.sync hload hc.live hrebuilt, hverdict⟩
  · rintro ⟨live, rebuilt, n, m, hc, hverdict⟩
    cases hc with
    | snapshot hverifying hloaded hsync hload hlive hrebuilt =>
        refine ⟨m, ⟨hverifying, hloaded⟩, ?_, i, live, n, ⟨hverifying, rfl, hsync, hlive, ?_⟩, ?_⟩
        · simp [loadShadow, hload, Except.toOption]
        · simp only [loadShadow, hload]
          exact hrebuilt
        · simp only [loadShadow, hload]
          exact hverdict

/-- A raw verification snapshot fails as the decoded one does. -/
theorem onRawVerificationSnapshot_failed_iff {body : Bytes} {m : Mismatch} :
    (b.onRawVerificationSnapshot i body).1 = .failed m ↔ ∃ info snap,
      b.instruments.get i = some info ∧ decodeSnapshot info b.snapshotLevels body = .ok snap ∧
        (b.onVerificationSnapshot i snap).1 = .failed m := by
  constructor
  · intro h
    rcases b.onRawVerificationSnapshot_cases i body with heq | ⟨-, heq⟩ | ⟨info, snap, hinfo, hdecode, heq⟩
    · simp [heq] at h
    · simp [heq, afterVerificationSnapshot] at h
    · rw [heq] at h
      exact ⟨info, snap, hinfo, hdecode, h⟩
  · rintro ⟨info, snap, hinfo, hdecode, h⟩
    rw [onRawVerificationSnapshot_eq hinfo hdecode]
    exact h

/-- A step ends a verification in a mismatch exactly if it makes the books be
compared, and they differ. -/
theorem mismatches_iff (op : BooksOp) :
    op.Mismatches b i ↔ ∃ live rebuilt n m,
      op.Compares b i live rebuilt n ∧ verdict live rebuilt n = some m := by
  cases op with
  | message bytes => exact apply_mismatch_iff
  | verificationSnapshot j snap =>
      by_cases hj : j = i
      · subst hj
        exact onVerificationSnapshot_mismatch_iff
      · constructor
        · rintro ⟨rfl, _⟩
          exact absurd rfl hj
        · rintro ⟨live, rebuilt, n, m, hc, _⟩
          cases hc
          exact absurd rfl hj
  | rawVerificationSnapshot j body =>
      constructor
      · rintro ⟨rfl, m, hm⟩
        obtain ⟨info, snap, hinfo, hdecode, hfailed⟩ := onRawVerificationSnapshot_failed_iff.mp hm
        obtain ⟨live, rebuilt, n, m, hc, hverdict⟩ :=
          onVerificationSnapshot_mismatch_iff.mp ⟨rfl, m, hfailed⟩
        exact ⟨live, rebuilt, n, m, .rawSnapshot hinfo hdecode hc, hverdict⟩
      · rintro ⟨live, rebuilt, n, m, hc, hverdict⟩
        cases hc with
        | rawSnapshot hinfo hdecode hsnap =>
            obtain ⟨_, m, hm⟩ :=
              onVerificationSnapshot_mismatch_iff.mpr ⟨live, rebuilt, n, m, hsnap, hverdict⟩
            exact ⟨rfl, m, onRawVerificationSnapshot_failed_iff.mpr ⟨_, _, hinfo, hdecode, hm⟩⟩
  | _ =>
      constructor
      · exact False.elim
      · rintro ⟨live, rebuilt, n, m, hc, _⟩
        cases hc

/-- Both syncs that a step with faithful calls compares follow the venue. -/
theorem compares_follows (h : b.Holds (Follows v i)) {op : BooksOp}
    (hop : op.Meets (FaithfulTo v i) b) {live rebuilt : BookSync} {n : Nat}
    (hc : op.Compares b i live rebuilt n) :
    (Follows v i i live ∧ live.lastSeq = some n) ∧
      Follows v i i rebuilt ∧ rebuilt.lastSeq = some n := by
  have hsnapshot : ∀ {snap : DepthSnapshot}, FaithfulTo v i i snap.call →
      BooksOp.Compares b i (.verificationSnapshot i snap) live rebuilt n →
        (Follows v i i live ∧ live.lastSeq = some n) ∧
          Follows v i i rebuilt ∧ rebuilt.lastSeq = some n := by
    intro snap hsnap hc
    cases hc with
    | snapshot hverifying hloaded hsync hload hlive hrebuilt =>
        have hcall := kept_follows.call (h.verifying hverifying) hsnap
        rw [show snap.call.run b.shadow.sync = rebuilt from congrArg Prod.snd hload] at hcall
        exact ⟨⟨h.live i live hsync, hlive⟩, hcall, hrebuilt⟩
  cases hc with
  | message hdecode hi hverifying hloaded hsync hdelta hlive hrebuilt =>
      rename_i bytes update old
      subst hi
      have hfaithful := hop update hdecode
      have hcall := kept_follows.call (h.live _ old hsync) hfaithful
      rw [show update.call.run old = live from congrArg Prod.snd hdelta] at hcall
      exact ⟨⟨hcall, hlive⟩, kept_follows.call (h.verifying hverifying) hfaithful, hrebuilt⟩
  | snapshot hverifying hloaded hsync hload hlive hrebuilt =>
      exact hsnapshot hop (.snapshot hverifying hloaded hsync hload hlive hrebuilt)
  | rawSnapshot hinfo hdecode hsnap => exact hsnapshot (hop _ _ hinfo hdecode) hsnap

/-- One step ends a verification in a mismatch exactly if the books it compares
have different depths. -/
theorem mismatches_iff_depth (h : b.Holds (Follows v i)) {op : BooksOp}
    (hop : op.Meets (FaithfulTo v i) b) :
    op.Mismatches b i ↔
      ∃ live rebuilt n, op.Compares b i live rebuilt n ∧ ¬ SameDepth live rebuilt := by
  rw [mismatches_iff]
  constructor
  · rintro ⟨live, rebuilt, n, m, hc, hverdict⟩
    obtain ⟨⟨hl, hln⟩, hr, hrn⟩ := compares_follows h hop hc
    refine ⟨live, rebuilt, n, hc, fun hsame => ?_⟩
    rw [(verdict_eq_none_iff hl hr hln hrn).mpr hsame] at hverdict
    cases hverdict
  · rintro ⟨live, rebuilt, n, hc, hdiffer⟩
    obtain ⟨⟨hl, hln⟩, hr, hrn⟩ := compares_follows h hop hc
    cases hverdict : verdict live rebuilt n with
    | none => exact absurd ((verdict_eq_none_iff hl hr hln hrn).mp hverdict) hdiffer
    | some m => exact ⟨live, rebuilt, n, m, hc, hverdict⟩

/-- A property that calls keep holds after every run of such calls. -/
theorem Holds.runAll {P : InstrumentId → BookSync → Prop} {M : InstrumentId → SyncCall → Prop}
    (hP : Kept P M) (h : b.Holds P) {ops : List BooksOp} (hops : ∀ op ∈ ops, op.Meets M b) :
    (b.runAll ops).Holds P := by
  induction ops using List.reverseRecOn with
  | nil => exact h
  | append_singleton ops op ih =>
      rw [runAll_snoc]
      refine (ih fun op' hmem => hops op' (by simp [hmem])).run hP ?_
      exact (hops op (by simp)).sameTable (runAll_sameTable b ops)

/-- **Verification of a correct book.** With a faithful feed for `i`, no
verification of it in a run ends in a mismatch exactly if, each time the two
books are compared, they hold equally many levels on each side, of the levels
that are compared. -/
theorem verification_passes_iff_same_depth {table : InstrumentTable} {config : SyncConfig}
    {perMessage levels : Nat} (hnew : MdBooks.new table config perMessage levels = some b)
    (v : L2.Venue) (i : InstrumentId) (ops : List BooksOp)
    (hops : ∀ op ∈ ops, op.Meets (FaithfulTo v i) b) :
    (∀ ops' op, ops' ++ [op] <+: ops → ¬ op.Mismatches (b.runAll ops') i) ↔
      ∀ ops' op, ops' ++ [op] <+: ops → ∀ live rebuilt n,
        op.Compares (b.runAll ops') i live rebuilt n → SameDepth live rebuilt := by
  have hstep : ∀ ops' op, ops' ++ [op] <+: ops → (op.Mismatches (b.runAll ops') i ↔
      ∃ live rebuilt n, op.Compares (b.runAll ops') i live rebuilt n ∧
        ¬ SameDepth live rebuilt) := by
    intro ops' op hpre
    have hmem : ∀ op' ∈ ops' ++ [op], op'.Meets (FaithfulTo v i) b := fun op' h =>
      hops op' (hpre.mem h)
    have hstart : b.Holds (Follows v i) := Holds.new hnew fun j s hs => .new hs j
    have hholds : (b.runAll ops').Holds (Follows v i) :=
      hstart.runAll kept_follows fun op' h => hmem op' (by simp [h])
    exact mismatches_iff_depth hholds ((hmem op (by simp)).sameTable (runAll_sameTable b ops'))
  constructor
  · intro h ops' op hpre live rebuilt n hc
    by_contra hdiffer
    exact h ops' op hpre ((hstep ops' op hpre).mpr ⟨live, rebuilt, n, hc, hdiffer⟩)
  · intro h ops' op hpre hm
    obtain ⟨live, rebuilt, n, hc, hdiffer⟩ := (hstep ops' op hpre).mp hm
    exact hdiffer (h ops' op hpre live rebuilt n hc)

end MdBooks

/-- Bids that have one better level for a moment. -/
def surgeBids : Nat → List Level
  | 2 => [⟨101, 1⟩, ⟨100, 1⟩, ⟨99, 1⟩]
  | _ => [⟨100, 1⟩, ⟨99, 1⟩]

theorem surgeBids_positive (n : Nat) : ∀ level ∈ surgeBids n, 0 < level.price ∧ 0 < level.qty := by
  unfold surgeBids
  split <;> simp

theorem surgeBids_nodup (n : Nat) : ((surgeBids n).map Level.price).Nodup := by
  unfold surgeBids
  split <;> simp

theorem surgeBids_map (n : Nat) (p : Price) (q : Qty) :
    PriceMap.ofLevels (surgeBids n) p = some q ↔ ⟨p, q⟩ ∈ surgeBids n :=
  Ladder.ofLevels_eq_some_iff
    (fun _ ha _ hb h => List.inj_on_of_nodup_map (surgeBids_nodup n) ha hb h) p q

/-- A venue with those bids and no asks. -/
def surgeVenue : L2.Venue where
  books n side := match side with
    | .buy => .ofLevels (surgeBids n)
    | .sell => .empty
  positive := by
    intro n side p q h
    cases side
    · exact surgeBids_positive n _ ((surgeBids_map n p q).mp h)
    · cases h
  uncrossed := by
    intro n bid ask q q' _ h
    cases h

/-- The better level comes, goes, and the book is verified. -/
def surgeOps : List BooksOp :=
  [.snapshot ⟨0⟩ ⟨1, surgeBids 1, []⟩ ⟨0⟩,
    .message (bidMessage 2 101 1), .message (bidMessage 3 101 0), .startVerification ⟨0⟩,
    .verificationSnapshot ⟨0⟩ ⟨3, surgeBids 3, []⟩]

theorem surgeVenue_snapshot (n : Nat) : surgeVenue.FaithfulSnapshot n (surgeBids n) [] := by
  refine ⟨⟨surgeBids_nodup n, fun p q => (surgeBids_map n p q).symm⟩, by simp, ?_⟩
  intro p q
  simp [surgeVenue, PriceMap.empty]

/-- The messages say what happened. -/
theorem surgeDelta_faithful {n : Nat} {qty : Qty} (h : (n = 2 ∧ qty = 1) ∨ (n = 3 ∧ qty = 0))
    {range : SeqRange} (hfirst : range.first = n) (hlast : range.last = n) :
    surgeVenue.FaithfulDelta range [⟨.buy, 101, qty⟩] := by
  refine ⟨?_, fun m h1 h2 => ?_⟩
  · rcases h with ⟨_, rfl⟩ | ⟨_, rfl⟩ <;> decide
  · have hm : m + 1 = n ∨ m = n := by omega
    rw [hlast]
    rcases h with ⟨rfl, rfl⟩ | ⟨rfl, rfl⟩
    all_goals
      obtain rfl | rfl : m = _ ∨ m = _ := by
        rcases hm with hm | hm
        · exact Or.inl (Nat.succ.inj hm)
        · exact Or.inr hm
      all_goals
        funext side p
        cases side <;>
          simp [surgeVenue, surgeBids, BookMap.applyAll, BookMap.apply, PriceMap.set,
            Function.update_apply]
        grind

theorem decode_bidMessage :
    decodeUpdate btcTable 10 (bidMessage 2 101 1) =
        .ok ⟨⟨0⟩, ⟨1000000⟩, ⟨2, 2, by decide, by decide⟩, [⟨.buy, 101, 1⟩]⟩ ∧
      decodeUpdate btcTable 10 (bidMessage 3 101 0) =
        .ok ⟨⟨0⟩, ⟨1000000⟩, ⟨3, 3, by decide, by decide⟩, [⟨.buy, 101, 0⟩]⟩ := by
  decide +kernel

theorem surgeOps_faithful (config : SyncConfig) :
    ∀ op ∈ surgeOps, op.Meets (FaithfulTo surgeVenue ⟨0⟩) (btcBooks config) := by
  simp only [surgeOps, List.mem_cons, List.not_mem_nil, or_false]
  rintro op (rfl | rfl | rfl | rfl | rfl)
  · exact fun _ => surgeVenue_snapshot 1
  · intro update hdecode _
    cases decode_bidMessage.1.symm.trans hdecode
    exact surgeDelta_faithful (Or.inl ⟨rfl, rfl⟩) rfl rfl
  · intro update hdecode _
    cases decode_bidMessage.2.symm.trans hdecode
    exact surgeDelta_faithful (Or.inr ⟨rfl, rfl⟩) rfl rfl
  · trivial
  · exact fun _ => surgeVenue_snapshot 3

/-- With room for two levels a side, the better level pushed one out that the
rebuilt book has: verification takes a correct book down. -/
theorem verification_fails_correct_book :
    MdBooks.new btcTable ⟨2, 4, 8⟩ 10 10 = some (btcBooks ⟨2, 4, 8⟩) ∧
      (∀ op ∈ surgeOps, op.Meets (FaithfulTo surgeVenue ⟨0⟩) (btcBooks ⟨2, 4, 8⟩)) ∧
      ∃ ops' op, ops' ++ [op] <+: surgeOps ∧
        op.Mismatches ((btcBooks ⟨2, 4, 8⟩).runAll ops') ⟨0⟩ := by
  refine ⟨by decide, surgeOps_faithful _, surgeOps.take 4,
    .verificationSnapshot ⟨0⟩ ⟨3, surgeBids 3, []⟩, List.prefix_rfl, rfl,
    ⟨.buy, 1, 3, none, some ⟨99, 1⟩⟩, ?_⟩
  decide +kernel

/-- The book of two levels that both become with room for four. -/
def roomyBook : Book := ⟨⟨.buy, [⟨99, 1⟩, ⟨100, 1⟩], 4, none⟩, ⟨.sell, [], 4, none⟩⟩

/-- With room for four, both books hold two levels and the verification passes. -/
theorem verification_passes_with_room :
    (∀ op ∈ surgeOps, op.Meets (FaithfulTo surgeVenue ⟨0⟩) (btcBooks ⟨4, 4, 8⟩)) ∧
      ∀ ops' op, ops' ++ [op] <+: surgeOps →
        ¬ op.Mismatches ((btcBooks ⟨4, 4, 8⟩).runAll ops') ⟨0⟩ := by
  have hnew : MdBooks.new btcTable ⟨4, 4, 8⟩ 10 10 = some (btcBooks ⟨4, 4, 8⟩) := by decide
  have hfaithful := surgeOps_faithful ⟨4, 4, 8⟩
  refine ⟨hfaithful, (MdBooks.verification_passes_iff_same_depth hnew surgeVenue ⟨0⟩ surgeOps
    hfaithful).mpr fun ops' op hpre live rebuilt n hc => ?_⟩
  have hlen : ops'.length < 5 := by
    have := hpre.length_le
    simp [surgeOps] at this
    omega
  have hops' : ops' = surgeOps.take ops'.length :=
    List.prefix_iff_eq_take.mp ((List.prefix_append ops' [op]).trans hpre)
  cases hc with
  | message hdecode hi hverifying hloaded hsync hdelta hlive hrebuilt =>
      -- nothing is loaded before the last step
      have hnone : ∀ k < 5,
          ((btcBooks ⟨4, 4, 8⟩).runAll (surgeOps.take k)).shadow.loaded = false := by
        decide +kernel
      rw [hops', hnone _ hlen] at hloaded
      cases hloaded
  | snapshot hverifying hloaded hsync hload hlive hrebuilt =>
      have hnone : ∀ k < 4,
          ((btcBooks ⟨4, 4, 8⟩).runAll (surgeOps.take k)).shadow.instrument = none := by
        decide +kernel
      have hlast : ops'.length = 4 := by
        by_contra hne
        rw [hops', hnone _ (by omega)] at hverifying
        cases hverifying
      rw [hlast] at hops'
      subst hops'
      rename_i snap used
      obtain rfl : snap = ⟨3, surgeBids 3, []⟩ := by
        have hmem := hpre.mem (List.mem_append_right _ (List.mem_singleton_self _))
        simpa [surgeOps] using hmem
      have hlivebook : (((btcBooks ⟨4, 4, 8⟩).runAll (surgeOps.take 4)).sync? ⟨0⟩).map
          BookSync.internalBook = some roomyBook := by
        decide +kernel
      have hrebuiltbook : (((btcBooks ⟨4, 4, 8⟩).runAll (surgeOps.take 4)).shadow.sync.onSnapshot
          3 (surgeBids 3) []).2.internalBook = roomyBook := by
        decide +kernel
      rw [hsync, Option.map_some] at hlivebook
      dsimp only at hload
      rw [hload] at hrebuiltbook
      intro side
      rw [Option.some.inj hlivebook, show rebuilt.internalBook = roomyBook from hrebuiltbook]
  | rawSnapshot hinfo hdecode hsnap =>
      have hmem := hpre.mem (List.mem_append_right ops' (List.mem_singleton_self _))
      simp [surgeOps] at hmem

end Bowst.Venue
