/-
Bowst.Venue.VerificationCountTheorems — that a session counts every verification once.

The session and its books both keep the verification in progress. As long as the two
agree, the three counters of the verdicts make up the number of verifications whose job
was sent, without the one in progress. They come apart at a second snapshot for a
verification that has one: the session forgets the verification, and the books go on.

  §1 Counts   — counters and the number of verifications they make up.
  §2 Books    — what a message or a snapshot does to the verification of the books.
  §3 Session  — what a step of the session does to it.
  §4 Runs     — every verification is counted, and the run in which one is not.
-/
import Bowst.Venue.ReplayTheorems

namespace Bowst.Venue

open Bowst.Lib Bowst.Core Bowst.L2 Bowst.Journal

/-! ## §1 Counts -/

/-- The counters of the verdicts. -/
def MdStats.verdicts (stats : MdStats) : Nat × Nat × Nat :=
  (stats.verificationsPassed, stats.verificationMismatches, stats.verificationsAbandoned)

/-- The counters of `n` verifications, each counted in one of them. -/
def MdStats.Counts (stats : MdStats) (n : Nat) : Prop :=
  ∃ passed mismatches abandoned, passed + mismatches + abandoned = n ∧
    stats.verdicts = (min passed u64Max, min mismatches u64Max, min abandoned u64Max)

theorem MdStats.Counts.congr {stats stats' : MdStats} {n : Nat} (h : stats.Counts n)
    (hsame : stats'.verdicts = stats.verdicts) : stats'.Counts n := by
  obtain ⟨passed, mismatches, abandoned, htotal, hverdicts⟩ := h
  exact ⟨passed, mismatches, abandoned, htotal, hsame.trans hverdicts⟩

theorem saturatingAdd_min (n : Nat) : saturatingAdd (min n u64Max) 1 = min (n + 1) u64Max := by
  unfold saturatingAdd
  omega

theorem MdStats.zero_counts : MdStats.zero.Counts 0 := ⟨0, 0, 0, rfl, by decide⟩

namespace MdBooks

variable {b b' : MdBooks} {n : Nat}

theorem countPassed_counts (h : b.stats.Counts n) : b.countPassed.stats.Counts (n + 1) := by
  obtain ⟨passed, mismatches, abandoned, htotal, hverdicts⟩ := h
  refine ⟨passed + 1, mismatches, abandoned, by omega, ?_⟩
  simp only [MdStats.verdicts, Prod.mk.injEq] at hverdicts ⊢
  simp [countPassed, hverdicts, saturatingAdd_min]

theorem countMismatch_counts (h : b.stats.Counts n) : b.countMismatch.stats.Counts (n + 1) := by
  obtain ⟨passed, mismatches, abandoned, htotal, hverdicts⟩ := h
  refine ⟨passed, mismatches + 1, abandoned, by omega, ?_⟩
  simp only [MdStats.verdicts, Prod.mk.injEq] at hverdicts ⊢
  simp [countMismatch, hverdicts, saturatingAdd_min]

end MdBooks

theorem MdSession.countAbandoned_counts {s : MdSession} {n : Nat} (h : s.books.stats.Counts n) :
    s.countAbandoned.books.stats.Counts (n + 1) := by
  obtain ⟨passed, mismatches, abandoned, htotal, hverdicts⟩ := h
  refine ⟨passed, mismatches, abandoned + 1, by omega, ?_⟩
  simp only [MdStats.verdicts, Prod.mk.injEq] at hverdicts ⊢
  simp [countAbandoned, hverdicts, saturatingAdd_min]

/-! ## §2 Books -/

namespace MdBooks

@[simp] theorem verifying_cancelVerification (b : MdBooks) : b.cancelVerification.verifying = none := by
  unfold cancelVerification verifying
  split_ifs with hverifying
  · rfl
  · simpa using hverifying

@[simp] theorem stats_cancelVerification (b : MdBooks) : b.cancelVerification.stats = b.stats := by
  unfold cancelVerification
  split <;> rfl

theorem verdicts_countInvalidation (b : MdBooks) :
    b.countInvalidation.stats.verdicts = b.stats.verdicts := rfl

variable {b b' : MdBooks}

theorem startVerification_started {i : InstrumentId} (h : b.startVerification i = (true, b')) :
    b'.verifying = some i ∧ b'.stats = b.stats := by
  unfold startVerification at h
  split_ifs at h with hlive
  · cases h
  · cases h
    exact ⟨rfl, rfl⟩

/-- A verification ends with a verdict, which is counted. -/
structure Compares (b b' : MdBooks) : Prop where
  before : b.verifying.isSome = true
  after : b'.verifying = none
  stats : ∀ n, b.stats.Counts n → b'.stats.Counts (n + 1)

/-- Nothing happens to the verification. -/
structure Keeps (b b' : MdBooks) : Prop where
  verifying : b'.verifying = b.verifying
  stats : b'.stats.verdicts = b.stats.verdicts

theorem Keeps.trans {b₁ : MdBooks} (h : b.Keeps b₁) (h' : b₁.Keeps b') : b.Keeps b' :=
  ⟨h'.verifying.trans h.verifying, h'.stats.trans h.stats⟩

theorem Keeps.compares {b₁ : MdBooks} (h : b.Keeps b₁) (h' : b₁.Compares b') : b.Compares b' :=
  ⟨by rw [← h.verifying]; exact h'.before, h'.after, fun n hn => h'.stats n (hn.congr h.stats)⟩

/-- A verdict is there exactly if the verification has ended. -/
theorem Settled.verdict {m : Option Mismatch} (h : Settled b m b') :
    b.Keeps b' ∧ m = none ∨ b.Compares b' := by
  cases h with
  | waiting _ => exact .inl ⟨⟨rfl, rfl⟩, rfl⟩
  | passed hcompared _ =>
      refine .inr ⟨by rw [verifying, hcompared.verifying]; rfl, verifying_cancelVerification b, fun n h => ?_⟩
      exact countPassed_counts (by simpa using h)
  | mismatch hcompared _ =>
      refine .inr ⟨by rw [verifying, hcompared.verifying]; rfl, verifying_cancelVerification b, fun n h => ?_⟩
      exact (countMismatch_counts (b := b.cancelVerification) (by simpa using h)).congr rfl

/-- What a message does to the verification. Its result tells whether it was cancelled. -/
inductive Applies (b b' : MdBooks) : Except String Applied → Prop
  | kept {res : Except String Applied} (h : b.Keeps b') : Applies b b' res
  | compared {applied : Applied} (h : b.Compares b') (hres : ∀ i err, applied ≠ .down i (.sync err)) :
      Applies b b' (.ok applied)
  | cancelled {i : InstrumentId} {err : SyncError} (hbefore : b.verifying = some i)
      (hafter : b'.verifying = none) (hstats : b'.stats.verdicts = b.stats.verdicts) :
      Applies b b' (.ok (.down i (.sync err)))

theorem UpdateStep.applies {update : DepthUpdate} {res : Except String Applied}
    (h : UpdateStep b update res b') : b.Applies b' res := by
  cases h with
  | unconfigured hsync => exact .kept ⟨rfl, rfl⟩
  | failed hsync hdelta =>
      rename_i s s' err
      by_cases hverifying : b.shadow.instrument = some update.instrument
      · rw [if_pos hverifying]
        refine .cancelled hverifying (verifying_cancelVerification _) ?_
        have hcancelled := stats_cancelVerification (b.setSync update.instrument s')
        rw [verdicts_countInvalidation, hcancelled]
        rfl
      · rw [if_neg hverifying]
        exact .kept ⟨rfl, rfl⟩
  | kept hsync hdelta hne =>
      split_ifs
      · exact .kept ⟨rfl, rfl⟩
      · exact .kept ⟨rfl, rfl⟩
  | applied hsync hdelta hother => exact .kept ⟨rfl, rfl⟩
  | passed hsync hdelta hverifying hsettled =>
      rename_i s s'
      have hfed : b.Keeps ((b.setSync update.instrument s').countDelta.feedShadow update) := ⟨rfl, rfl⟩
      rcases hsettled.verdict with ⟨hkept, -⟩ | hcompared
      · exact .kept (hfed.trans hkept)
      · exact .compared (hfed.compares hcompared) (by simp)
  | mismatch hsync hdelta hverifying hsettled =>
      rename_i s s' m
      have hfed : b.Keeps ((b.setSync update.instrument s').countDelta.feedShadow update) := ⟨rfl, rfl⟩
      rcases hsettled.verdict with ⟨-, hnone⟩ | hcompared
      · cases hnone
      · exact .compared (hfed.compares hcompared) (by simp)

theorem apply_applies (b : MdBooks) (message : Bytes) : b.Applies (b.apply message).2 (b.apply message).1 := by
  unfold apply
  dsimp only
  split
  · exact .kept ⟨rfl, rfl⟩
  · rename_i update hdecode
    have hstep := (applyUpdate_step b.countMessage update).applies
    have hmessage : b.Keeps b.countMessage := ⟨rfl, rfl⟩
    generalize (b.countMessage.applyUpdate update).1 = res at hstep
    cases hstep with
    | kept h => exact .kept (hmessage.trans h)
    | compared h hres => exact .compared (hmessage.compares h) hres
    | cancelled hbefore hafter hstats => exact .cancelled hbefore hafter hstats

/-- A snapshot of a live book is not about verification. -/
theorem onSnapshot_keeps (b : MdBooks) (i : InstrumentId) (snapshot : DepthSnapshot) (time : WallTime) :
    b.Keeps (b.onSnapshot i snapshot time).2.1 := by
  unfold onSnapshot
  split
  · exact ⟨rfl, rfl⟩
  · unfold settle
    split
    · split
      · exact ⟨rfl, rfl⟩
      · exact ⟨rfl, rfl⟩
    · exact ⟨rfl, rfl⟩
    · exact ⟨rfl, rfl⟩
    · exact ⟨rfl, rfl⟩

/-- What a verification snapshot does to a verification without one. -/
inductive Loads (b b' : MdBooks) : Verification → Prop
  | pending (h : b.Keeps b') : Loads b b' .pending
  | passed (h : b.Compares b') : Loads b b' .passed
  | failed {m : Mismatch} (h : b.Compares b') : Loads b b' (.failed m)
  | unusable (hafter : b'.verifying = none) (hstats : b'.stats.verdicts = b.stats.verdicts) :
      Loads b b' .unusable

theorem afterVerificationSnapshot_loads {i : InstrumentId} (hverifying : b.verifying = some i)
    (loaded : Bool) : b.Loads (b.afterVerificationSnapshot i loaded).2.1
      (b.afterVerificationSnapshot i loaded).1 := by
  unfold afterVerificationSnapshot
  cases loaded with
  | false => exact .unusable (verifying_cancelVerification b) (by simp)
  | true =>
      have hmarked : b.Keeps { b with shadow := { b.shadow with loaded := true } } := ⟨rfl, rfl⟩
      have hsettled := (settleVerification_settled { b with shadow := { b.shadow with loaded := true } }).verdict
      simp only [Bool.not_true, Bool.false_eq_true, if_false]
      generalize settleVerification { b with shadow := { b.shadow with loaded := true } } = res at hsettled ⊢
      obtain ⟨m, b₁⟩ := res
      rcases hsettled with ⟨hkept, hnone⟩ | hcompared
      · simp only at hnone
        subst hnone
        have hstill : b₁.shadow.instrument = some i := hkept.verifying.trans hverifying
        simpa [hstill] using Loads.pending (hmarked.trans hkept)
      · cases m with
        | none =>
            have hended : b₁.shadow.instrument = none := hcompared.after
            simpa [hended] using Loads.passed (hmarked.compares hcompared)
        | some m => exact .failed (hmarked.compares hcompared)

theorem onVerificationSnapshot_loads {i : InstrumentId} (hverifying : b.verifying = some i)
    (hloaded : b.shadow.loaded = false) (snapshot : DepthSnapshot) :
    b.Loads (b.onVerificationSnapshot i snapshot).2.1 (b.onVerificationSnapshot i snapshot).1 := by
  obtain ⟨hother, -⟩ | ⟨-, heq⟩ := b.onVerificationSnapshot_cases i snapshot
  · exact absurd ⟨hverifying, hloaded⟩ hother
  rw [heq]
  have hload : b.Keeps (b.loadShadow snapshot).2 := ⟨rfl, rfl⟩
  have hafter := afterVerificationSnapshot_loads (hload.verifying.trans hverifying)
    (b.loadShadow snapshot).1
  generalize (b.loadShadow snapshot).2.afterVerificationSnapshot i (b.loadShadow snapshot).1 = res
    at hafter ⊢
  obtain ⟨verdict, b₁, calls⟩ := res
  cases hafter with
  | pending h => exact .pending (hload.trans h)
  | passed h => exact .passed (hload.compares h)
  | failed h => exact .failed (hload.compares h)
  | unusable hended hstats => exact .unusable hended hstats

end MdBooks

/-! ## §3 Session -/

namespace MdSession

/-- The verifications whose job was sent make up the counters and the one in progress, which
the session and its books agree on. -/
structure Accounts (s : MdSession) (sent : Nat) : Prop where
  linked : s.verification.map Prod.fst = s.books.verifying
  counted : ∃ n, s.books.stats.Counts n ∧ n + s.books.verifying.toList.length = sent

variable {s s' : MdSession} {sent : Nat}

/-- No verification starts or ends. -/
theorem Accounts.congr (h : s.Accounts sent) (hverification : s'.verification = s.verification)
    (hkeeps : s.books.Keeps s'.books) : s'.Accounts sent := by
  obtain ⟨n, hcounts, htotal⟩ := h.counted
  refine ⟨?_, n, hcounts.congr hkeeps.stats, by rw [hkeeps.verifying]; exact htotal⟩
  rw [hverification, hkeeps.verifying]
  exact h.linked

/-- The verification in progress ends, and is counted. -/
theorem Accounts.ended (h : s.Accounts sent) (hverifying : s.books.verifying.isSome = true)
    (hverification : s'.verification = none) (hafter : s'.books.verifying = none)
    (hcounted : ∀ n, s.books.stats.Counts n → s'.books.stats.Counts (n + 1)) : s'.Accounts sent := by
  obtain ⟨n, hcounts, htotal⟩ := h.counted
  obtain ⟨i, hi⟩ := Option.isSome_iff_exists.mp hverifying
  refine ⟨by rw [hverification, hafter]; rfl, n + 1, hcounted n hcounts, ?_⟩
  simpa [hafter, hi] using htotal

/-- Where no verification is in progress, all are counted. -/
theorem Accounts.idle (h : s.Accounts sent) (hverifying : s.books.verifying = none) :
    s.books.stats.Counts sent := by
  obtain ⟨n, hcounts, htotal⟩ := h.counted
  rw [hverifying] at htotal
  simpa [← htotal] using hcounts

/-- Where one is in progress, all others are. -/
theorem Accounts.busy (h : s.Accounts (sent + 1)) (hverifying : s.books.verifying.isSome = true) :
    s.books.stats.Counts sent := by
  obtain ⟨n, hcounts, htotal⟩ := h.counted
  obtain ⟨i, hi⟩ := Option.isSome_iff_exists.mp hverifying
  have heq : n = sent := by simpa [hi] using htotal
  exact heq ▸ hcounts

theorem Accounts.abandonVerification (h : s.Accounts sent) (hverifying : s.books.verifying.isSome = true) :
    s.abandonVerification.Accounts sent ∧ s.abandonVerification.verification = none := by
  refine ⟨h.ended hverifying rfl (MdBooks.verifying_cancelVerification s.books) fun n hn => ?_, rfl⟩
  exact countAbandoned_counts (by simpa using hn)

/-- The session looks at no verification that the books still have. -/
theorem endVerification_linked (hlinked : s.verification.map Prod.fst = s.books.verifying)
    (applied : Applied) : s.endVerification applied = s := by
  unfold endVerification
  split
  · rfl
  · rename_i id started hverification
    rw [hverification] at hlinked
    exact if_pos hlinked.symm

/-- A verification that ended with a verdict. -/
theorem endVerification_compared (hverifying : s.books.verifying = none) {applied : Applied}
    (hres : ∀ i err, applied ≠ .down i (.sync err)) :
    s.endVerification applied = { s with verification := none } := by
  unfold endVerification
  split
  · rename_i hnone
    rw [← hnone]
  · rw [if_neg (by simp [hverifying])]
    split
    · rename_i i err
      exact absurd rfl (hres i err)
    · rfl

/-- A verification that was cancelled by a gap. -/
theorem endVerification_cancelled {id : InstrumentId} {started : Instant} {err : SyncError}
    (hverification : s.verification = some (id, started)) (hverifying : s.books.verifying = none) :
    s.endVerification (.down id (.sync err)) = { s.countAbandoned with verification := none } := by
  unfold endVerification
  rw [hverification]
  simp [hverifying]

/-- The books applied a message, and the session looks at what became of the verification. -/
theorem Accounts.endVerification (h : s.Accounts sent) (s' : MdSession) {applied : Applied}
    (hverification : s'.verification = s.verification) (happly : s.books.Applies s'.books (.ok applied)) :
    (s'.endVerification applied).Accounts sent := by
  cases happly with
  | kept hkeeps =>
      have hkept : s'.Accounts sent := h.congr hverification hkeeps
      rw [endVerification_linked hkept.linked]
      exact hkept
  | compared hcompares hres =>
      rw [endVerification_compared hcompares.after hres]
      exact h.ended hcompares.before rfl hcompares.after hcompares.stats
  | cancelled hbefore hafter hstats =>
      rename_i i err
      have hlinked := h.linked
      rw [hbefore] at hlinked
      obtain ⟨⟨id, started⟩, hsession, hid⟩ := Option.map_eq_some_iff.mp hlinked
      simp only at hid
      subst hid
      rw [endVerification_cancelled (hverification.trans hsession) hafter]
      exact h.ended (by rw [hbefore]; rfl) rfl hafter fun n hn => countAbandoned_counts (hn.congr hstats)

theorem Accounts.message (h : s.Accounts sent) (bytes : Bytes) (clock : Readings) :
    (s.message bytes clock).Accounts sent := by
  have happly := s.books.apply_applies bytes
  unfold MdSession.message
  dsimp only
  have hbooks : (s.record .mdMessage none [bytes] clock).books = s.books := rfl
  rw [hbooks]
  generalize s.books.apply bytes = res at happly ⊢
  obtain ⟨res, b⟩ := res
  cases res with
  | error err =>
      cases happly with
      | kept hkeeps => exact h.congr rfl hkeeps
  | ok applied =>
      have hended := h.endVerification (({ s.record .mdMessage none [bytes] clock with books := b } :
        MdSession).tell (b.report applied)) rfl happly
      cases applied with
      | quiet => exact hended
      | book i time => exact hended
      | down i reason => exact hended.congr rfl ⟨rfl, rfl⟩

/-- A snapshot for the verification in progress, which has none yet. -/
theorem Accounts.useVerificationSnapshot (h : s.Accounts sent) {id : InstrumentId}
    (hverifying : s.books.verifying = some id) (hloaded : s.books.shadow.loaded = false)
    (snapshot : OwnedSnapshot) (clock : Readings) :
    (s.useVerificationSnapshot id snapshot clock).Accounts sent := by
  have hbusy : s.books.verifying.isSome = true := by rw [hverifying]; rfl
  have hloads := MdBooks.onVerificationSnapshot_loads hverifying hloaded snapshot.toDepthSnapshot
  unfold MdSession.useVerificationSnapshot
  dsimp only
  have hbooks : (s.record .mdVerifySnapshot (some snapshot.fetchedAt) [idBytes id, snapshot.raw]
    clock).books = s.books := rfl
  rw [hbooks]
  generalize s.books.onVerificationSnapshot id snapshot.toDepthSnapshot = res at hloads ⊢
  obtain ⟨verdict, b, calls⟩ := res
  cases hloads with
  | pending hkeeps => exact h.congr rfl hkeeps
  | passed hcompares => exact h.ended hbusy rfl hcompares.after hcompares.stats
  | failed hcompares => exact h.ended hbusy rfl hcompares.after hcompares.stats
  | unusable hafter hstats =>
      exact h.ended hbusy rfl hafter fun n hn => countAbandoned_counts (hn.congr hstats)

/-- Whether a step collects a snapshot for a verification that has one. -/
def loadsTwice (s : MdSession) : SessionStep → Bool
  | .collectSnapshot _ =>
      match s.results.head?, s.verification with
      | some result, some (id, _) =>
          decide (result.generation = s.generation ∧ result.purpose = .verify ∧
            id = result.instrument ∧ s.books.verifying = some id) &&
              result.outcome.isOk && s.books.shadow.loaded
      | _, _ => false
  | _ => false

theorem Accounts.applyVerificationSnapshot (h : s.Accounts sent) {result : SnapshotResult}
    (honce : ∀ id started snapshot, s.verification = some (id, started) → id = result.instrument →
      s.books.verifying = some id → result.outcome = .ok snapshot → s.books.shadow.loaded = false)
    (clock : Readings) : (s.applyVerificationSnapshot result clock).Accounts sent := by
  unfold MdSession.applyVerificationSnapshot
  split
  · exact h
  · rename_i id started hverification
    split_ifs with hother
    · exact h
    · obtain ⟨hid, hverifying⟩ := not_or.mp hother |>.imp not_not.mp not_not.mp
      split
      · exact (h.abandonVerification (by rw [hverifying]; rfl)).1
      · rename_i snapshot hok
        exact h.useVerificationSnapshot hverifying (honce id started snapshot hverification hid hverifying hok)
          snapshot clock

theorem Accounts.collectSnapshot (h : s.Accounts sent) (debugText : MdStatus → Bytes) (clock : Readings)
    (honce : s.loadsTwice (.collectSnapshot clock) = false) :
    (s.collectSnapshot debugText clock).Accounts sent := by
  unfold MdSession.collectSnapshot
  split
  · exact h
  · rename_i result results hresults
    have hpop : MdSession.Accounts { s with results } sent := h.congr rfl ⟨rfl, rfl⟩
    dsimp only
    split_ifs with hgeneration
    · exact hpop
    · split
      · unfold MdSession.applySnapshot
        split
        · exact hpop.congr rfl ⟨rfl, rfl⟩
        · rename_i snapshot hok
          have hkeeps := s.books.onSnapshot_keeps result.instrument snapshot.toDepthSnapshot snapshot.fetchedAt
          exact hpop.congr rfl hkeeps
      · rename_i hpurpose
        refine hpop.applyVerificationSnapshot (fun id started snapshot hverification hid hverifying hok => ?_) clock
        simpa [loadsTwice, hresults, show s.verification = some (id, started) from hverification,
          not_not.mp hgeneration, hpurpose, hid, show s.books.verifying = some id from hverifying, hok,
          Except.isOk, Except.toBool] using honce

theorem collectSnapshot_jobs (s : MdSession) (debugText : MdStatus → Bytes) (clock : Readings) :
    (s.collectSnapshot debugText clock).jobs = s.jobs := by
  unfold MdSession.collectSnapshot
  split
  · rfl
  · dsimp only
    split_ifs with hgeneration
    · rfl
    · split
      · exact (quiet_applySnapshot debugText _ _ clock).1.jobs
      · exact (quiet_applyVerificationSnapshot _ _ clock).jobs

/-- What starting a verification does: nothing, or it sends the job of one. -/
inductive Starts (s s' : MdSession) (sent : Nat) : Prop
  | none (hjobs : s'.jobs = s.jobs) (h : s'.Accounts sent)
  | one {job : SnapshotJob} (hpurpose : job.purpose = .verify) (hjobs : s'.jobs = s.jobs ++ [job])
      (h : s'.Accounts (sent + 1)) (hverifying : s'.books.verifying.isSome = true)

/-- Changes before and after that are not about verification. -/
theorem Starts.congr {s₁ s₂ : MdSession} (h : s₁.Starts s₂ sent) (hjobs₁ : s₁.jobs = s.jobs)
    (hjobs₂ : s'.jobs = s₂.jobs) (hverification : s'.verification = s₂.verification)
    (hbooks : s'.books = s₂.books) : s.Starts s' sent := by
  have hkeeps : s₂.books.Keeps s'.books := by
    rw [hbooks]
    exact ⟨rfl, rfl⟩
  cases h with
  | none hjobs h => exact .none (hjobs₂.trans (hjobs.trans hjobs₁)) (h.congr hverification hkeeps)
  | one hpurpose hjobs h hverifying =>
      exact .one hpurpose (by rw [hjobs₂, hjobs, hjobs₁]) (h.congr hverification hkeeps)
        (by rw [hbooks]; exact hverifying)

theorem Accounts.sendVerification (h : s.Accounts sent) (hidle : s.books.verifying = none) {b : MdBooks}
    {id : InstrumentId} (hverifying : b.verifying = some id) (hstats : b.stats = s.books.stats)
    (instrument : Instrument) (clock : Readings) :
    s.Starts (({ s with books := b } : MdSession).sendVerification id instrument clock) sent := by
  have hcounts := h.idle hidle
  have hpurpose : (⟨instrument, s.generation, .verify⟩ : SnapshotJob).purpose = .verify := rfl
  refine .one hpurpose rfl ⟨hverifying.symm, sent, hcounts.congr ?_, ?_⟩ ?_
  · show b.stats.verdicts = s.books.stats.verdicts
    rw [hstats]
  · show sent + b.verifying.toList.length = sent + 1
    rw [hverifying]
    rfl
  · show b.verifying.isSome = true
    rw [hverifying]
    rfl

theorem Accounts.verifyNext (h : s.Accounts sent) (hidle : s.books.verifying = none) (clock : Readings)
    (steps : List Nat) : s.Starts (s.verifyNext clock steps) sent := by
  induction steps with
  | nil => exact .none rfl h
  | cons step steps ih =>
      unfold MdSession.verifyNext
      dsimp only
      split
      · exact ih
      · split
        · exact ih
        · rename_i instrument hget _ b hstart
          obtain ⟨hverifying, hstats⟩ := MdBooks.startVerification_started hstart
          exact (h.sendVerification hidle hverifying hstats instrument clock).congr rfl rfl rfl rfl

theorem Accounts.startVerification (h : s.Accounts sent) (hidle : s.books.verifying = none)
    (every : Duration) (clock : Readings) (after : Instant) :
    s.Starts (s.startVerification every clock after) sent := by
  unfold MdSession.startVerification
  split_ifs with hdue
  · exact .none rfl h
  · exact (h.verifyNext hidle clock _).congr rfl rfl rfl rfl

theorem Accounts.scheduleVerification (h : s.Accounts sent) (clock : Readings) (after : Instant) :
    s.Starts (s.scheduleVerification clock after) sent := by
  have hlinked := h.linked
  unfold MdSession.scheduleVerification
  split
  · exact .none rfl h
  · split
    · rename_i hverification
      rw [hverification] at hlinked
      exact h.startVerification hlinked.symm _ clock after
    · rename_i id started hverification
      split_ifs with hlate
      · exact .none rfl h
      · rw [hverification] at hlinked
        obtain ⟨habandoned, hnone⟩ := h.abandonVerification (by rw [← hlinked]; rfl)
        have hidle : s.abandonVerification.books.verifying = none := by
          rw [← habandoned.linked, hnone]
          rfl
        exact (habandoned.startVerification hidle _ clock after).congr rfl rfl rfl rfl

/-- The end of a connection ends the verification. -/
theorem Accounts.takeAllDown (h : s.Accounts sent) (clock : Readings) :
    (s.takeAllDown clock).Accounts sent ∧ (s.takeAllDown clock).books.verifying = none := by
  have hreset : s.books.resetAll.verifying = none := MdBooks.verifying_cancelVerification _
  have hstats : s.books.resetAll.stats = s.books.stats := MdBooks.stats_cancelVerification _
  have hlinked := h.linked
  unfold MdSession.takeAllDown dropVerification
  dsimp only
  split_ifs with hbusy
  · have hverifying : s.books.verifying.isSome = true := by
      rw [← hlinked, Option.isSome_map]
      exact hbusy
    refine ⟨h.ended hverifying rfl hreset fun n hn => ?_, hreset⟩
    have hreset : s.books.resetAll.stats.Counts n := by
      rw [hstats]
      exact hn
    exact countAbandoned_counts (s := { s with books := s.books.resetAll }) hreset
  · have hnone : s.verification = none := Option.not_isSome_iff_eq_none.mp hbusy
    have hverifying : s.books.verifying = none := by
      rw [← hlinked, hnone]
      rfl
    refine ⟨h.congr rfl ⟨hreset.trans hverifying.symm, congrArg MdStats.verdicts hstats⟩, hreset⟩

/-- Requests for snapshots of books that are not live are no verifications. -/
theorem requestSnapshots_jobs (s : MdSession) (now : Instant) :
    ∃ jobs, (s.requestSnapshots now).jobs = s.jobs ++ jobs ∧ (∀ job ∈ jobs, job.purpose = .sync) ∧
      (s.requestSnapshots now).verification = s.verification ∧
      s.books.Keeps (s.requestSnapshots now).books := by
  have hloop : ∀ (indices : List Nat) (s : MdSession), ∃ jobs,
      (indices.foldl (requestSnapshot now) s).jobs = s.jobs ++ jobs ∧
        (∀ job ∈ jobs, job.purpose = .sync) ∧
        (indices.foldl (requestSnapshot now) s).verification = s.verification ∧
        s.books.Keeps (indices.foldl (requestSnapshot now) s).books := by
    intro indices
    induction indices with
    | nil => intro s; exact ⟨[], by simp, by simp, rfl, rfl, rfl⟩
    | cons index indices ih =>
        intro s
        have hone : ∃ jobs, (requestSnapshot now s index).jobs = s.jobs ++ jobs ∧
            (∀ job ∈ jobs, job.purpose = .sync) ∧
            (requestSnapshot now s index).verification = s.verification ∧
            s.books.Keeps (requestSnapshot now s index).books := by
          unfold requestSnapshot
          dsimp only
          split
          · exact ⟨[], by simp, by simp, rfl, rfl, rfl⟩
          · split
            · exact ⟨[], by simp, by simp, rfl, rfl, rfl⟩
            · exact ⟨[_], rfl, by simp, rfl, rfl, rfl⟩
        obtain ⟨jobs, hjobs, hsync, hverification, hkeeps⟩ := hone
        obtain ⟨jobs', hjobs', hsync', hverification', hkeeps'⟩ := ih (requestSnapshot now s index)
        refine ⟨jobs ++ jobs', ?_, ?_, hverification'.trans hverification, hkeeps.trans hkeeps'⟩
        · rw [List.foldl_cons, hjobs', hjobs, List.append_assoc]
        · intro job hmem
          exact (List.mem_append.mp hmem).elim (hsync job) (hsync' job)
  exact hloop _ s

/-! ## §4 Runs -/

/-- The verifications whose job a step sends. -/
def sends (debugText : MdStatus → Bytes) (s : MdSession) (step : SessionStep) : Nat :=
  ((step.run debugText s).jobs.drop s.jobs.length).countP fun job => job.purpose = .verify

/-- The verifications whose job steps send. -/
def verificationsSent (debugText : MdStatus → Bytes) (s : MdSession) : List SessionStep → Nat
  | [] => 0
  | step :: steps => s.sends debugText step + verificationsSent debugText (step.run debugText s) steps

theorem sends_eq {debugText : MdStatus → Bytes} {step : SessionStep} {jobs : List SnapshotJob}
    (h : (step.run debugText s).jobs = s.jobs ++ jobs) :
    s.sends debugText step = jobs.countP fun job => job.purpose = .verify := by
  rw [sends, h, List.drop_left]

theorem sends_none {debugText : MdStatus → Bytes} {step : SessionStep}
    (h : (step.run debugText s).jobs = s.jobs) : s.sends debugText step = 0 := by
  have hnone : (step.run debugText s).jobs = s.jobs ++ [] := by rw [h, List.append_nil]
  rw [sends_eq hnone, List.countP_nil]

/-- What one step keeps, and what it leaves behind: a verification in progress if it sent
the job of one, and none if it ends the connection. -/
structure Stepped (debugText : MdStatus → Bytes) (s : MdSession) (sent : Nat) (step : SessionStep) :
    Prop where
  accounts : (step.run debugText s).Accounts (sent + s.sends debugText step)
  started : s.sends debugText step ≠ 0 → s.sends debugText step = 1 ∧
    (step.run debugText s).books.verifying.isSome = true
  ended : step.isReconnect = true → (step.run debugText s).books.verifying = none

/-- A step without jobs, or with jobs that are not for verification. -/
theorem Stepped.quiet {debugText : MdStatus → Bytes} {step : SessionStep}
    (hconnected : step.isReconnect = false) (hzero : s.sends debugText step = 0)
    (h : (step.run debugText s).Accounts sent) : s.Stepped debugText sent step := by
  refine ⟨?_, fun hsent => absurd hzero hsent, fun hreconnect => ?_⟩
  · rw [hzero]
    exact h
  · rw [hconnected] at hreconnect
    cases hreconnect

theorem Accounts.step {debugText : MdStatus → Bytes} (h : s.Accounts sent) (step : SessionStep)
    (honce : s.loadsTwice step = false) : s.Stepped debugText sent step := by
  cases step with
  | connecting clock => exact .quiet rfl (sends_none rfl) (h.congr rfl ⟨rfl, rfl⟩)
  | connected clock => exact .quiet rfl (sends_none rfl) (h.congr rfl ⟨rfl, rfl⟩)
  | message bytes clock =>
      exact .quiet rfl (sends_none (quiet_message s bytes clock).jobs) (h.message bytes clock)
  | collectSnapshot clock =>
      exact .quiet rfl (sends_none (s.collectSnapshot_jobs debugText clock))
        (h.collectSnapshot debugText clock honce)
  | requestSnapshots now =>
      obtain ⟨jobs, hjobs, hsync, hverification, hkeeps⟩ := s.requestSnapshots_jobs now
      have hrun : (SessionStep.run debugText s (.requestSnapshots now)).jobs = s.jobs ++ jobs := hjobs
      refine .quiet rfl ?_ (h.congr hverification hkeeps)
      rw [sends_eq hrun, List.countP_eq_zero]
      intro job hmem
      simp [hsync job hmem]
  | scheduleVerification clock after =>
      cases h.scheduleVerification clock after with
      | none hjobs h => exact .quiet rfl (sends_none hjobs) h
      | one hpurpose hjobs h hverifying =>
          rename_i job
          have hrun : (SessionStep.run debugText s (.scheduleVerification clock after)).jobs =
              s.jobs ++ [job] := hjobs
          have hone : s.sends debugText (.scheduleVerification clock after) = 1 := by
            simp [sends_eq hrun, hpurpose]
          refine ⟨?_, fun _ => ⟨hone, hverifying⟩, by simp [SessionStep.isReconnect]⟩
          rw [hone]
          exact h
  | takeAllDown clock =>
      obtain ⟨hdown, hidle⟩ := h.takeAllDown clock
      have hjobs : (SessionStep.run debugText s (.takeAllDown clock)).jobs = s.jobs :=
        (quiet_dropVerification _).jobs
      refine ⟨?_, fun hsent => absurd (sends_none hjobs) hsent, fun _ => hidle⟩
      rw [sends_none hjobs]
      exact hdown
  | disconnected reason clock => exact .quiet rfl (sends_none rfl) (h.congr rfl ⟨rfl, rfl⟩)
  | takeJob =>
      have hsame : s.takeJob.verification = s.verification ∧ s.takeJob.books = s.books := by
        unfold takeJob
        split <;> exact ⟨rfl, rfl⟩
      refine .quiet rfl ?_ (h.congr hsame.1 (by rw [SessionStep.run, hsame.2]; exact ⟨rfl, rfl⟩))
      -- A job that was taken leaves the queue.
      have hle : s.takeJob.jobs.length ≤ s.jobs.length := by
        unfold takeJob
        split <;> simp_all
      rw [sends, SessionStep.run, List.drop_eq_nil_of_le hle, List.countP_nil]
  | finishJob response fetchedAt =>
      have hsame : (s.finishJob response fetchedAt).jobs = s.jobs ∧
          (s.finishJob response fetchedAt).verification = s.verification ∧
          (s.finishJob response fetchedAt).books = s.books := by
        unfold finishJob
        split <;> exact ⟨rfl, rfl, rfl⟩
      exact .quiet rfl (sends_none hsame.1)
        (h.congr hsame.2.1 (by rw [SessionStep.run, hsame.2.2]; exact ⟨rfl, rfl⟩))

/-- No step collects a snapshot for a verification that has one. -/
def LoadsOnce (debugText : MdStatus → Bytes) (s : MdSession) : List SessionStep → Prop
  | [] => True
  | step :: steps => s.loadsTwice step = false ∧ LoadsOnce debugText (step.run debugText s) steps

instance decidableLoadsOnce (debugText : MdStatus → Bytes) :
    ∀ (s : MdSession) (steps : List SessionStep), Decidable (s.LoadsOnce debugText steps)
  | _, [] => isTrue trivial
  | s, step :: steps =>
      haveI := decidableLoadsOnce debugText (step.run debugText s) steps
      inferInstanceAs (Decidable (_ ∧ _))

/-- Every verification is counted once: where the next one starts and where the connection
ends, the counters make up the verifications sent before. -/
def CountedOnce (debugText : MdStatus → Bytes) (s : MdSession) (steps : List SessionStep) : Prop :=
  ∀ before step, before ++ [step] <+: steps →
    (s.run debugText before).sends debugText step ≠ 0 ∨ step.isReconnect = true →
    (s.run debugText (before ++ [step])).books.stats.Counts (s.verificationsSent debugText before)

theorem run_snoc (debugText : MdStatus → Bytes) (s : MdSession) (steps : List SessionStep)
    (step : SessionStep) : s.run debugText (steps ++ [step]) = step.run debugText (s.run debugText steps) := by
  rw [run, List.foldl_append]
  rfl

/-- The steps before another one, and that one. -/
theorem LoadsOnce.split {debugText : MdStatus → Bytes} {step : SessionStep} {after : List SessionStep} :
    ∀ {before : List SessionStep} {s : MdSession}, s.LoadsOnce debugText (before ++ step :: after) →
      s.LoadsOnce debugText before ∧ (s.run debugText before).loadsTwice step = false := by
  intro before
  induction before with
  | nil => intro s h; exact ⟨trivial, h.1⟩
  | cons first before ih =>
      intro s h
      obtain ⟨hbefore, hstep⟩ := ih h.2
      exact ⟨⟨h.1, hbefore⟩, hstep⟩

/-- Steps keep the account. -/
theorem Accounts.run {debugText : MdStatus → Bytes} : ∀ {steps : List SessionStep} {s : MdSession} {sent : Nat},
    s.Accounts sent → s.LoadsOnce debugText steps →
      (s.run debugText steps).Accounts (sent + s.verificationsSent debugText steps) := by
  intro steps
  induction steps with
  | nil => intro s sent h _; exact h
  | cons step steps ih =>
      intro s sent h honce
      have hrest := ih (h.step step honce.1).accounts honce.2
      rw [verificationsSent, ← Nat.add_assoc]
      exact hrest

/-- A session before its first step. -/
theorem Fresh.accounts {config : MdConfig} {instruments : InstrumentTable}
    (h : Fresh config instruments s) : s.Accounts 0 := by
  have hnew : ∀ {s : MdSession} {now : Instant}, MdSession.new config instruments now = .ok s →
      s.Accounts 0 := by
    intro s now hs
    obtain ⟨books, hbooks, rfl⟩ := new_eq hs
    obtain ⟨sync, -, rfl⟩ := MdBooks.new_eq hbooks
    exact ⟨rfl, 0, MdStats.zero_counts, rfl⟩
  cases h with
  | new hs => exact hnew hs
  | withJournal clock hs => exact (hnew hs).congr rfl ⟨rfl, rfl⟩

/-- **Every verification is counted once.** Over any steps of a session, in any order, of
which none collects a snapshot for a verification that has one: where the next verification
starts and where the connection ends, the three counters make up the verifications whose
job was sent before. -/
theorem verifications_counted_once (debugText : MdStatus → Bytes) {config : MdConfig}
    {instruments : InstrumentTable} {s₀ : MdSession} (hfresh : Fresh config instruments s₀)
    (steps : List SessionStep) (honce : s₀.LoadsOnce debugText steps) :
    s₀.CountedOnce debugText steps := by
  rintro before step ⟨after, rfl⟩ hends
  rw [List.append_assoc, List.singleton_append] at honce
  obtain ⟨hbefore, hstep⟩ := honce.split
  have haccounts := hfresh.accounts.run hbefore
  rw [Nat.zero_add] at haccounts
  obtain ⟨hafter, hsends, hreconnect⟩ := haccounts.step step hstep
  rw [run_snoc]
  by_cases hsent : (s₀.run debugText before).sends debugText step = 0
  · rw [hsent, Nat.add_zero] at hafter
    exact hafter.idle (hreconnect (hends.resolve_left (not_not.mpr hsent)))
  · obtain ⟨hone, hverifying⟩ := hsends hsent
    rw [hone] at hafter
    exact hafter.busy hverifying

/-- One verification that passes, and the end of the connection. -/
def passedSteps : List SessionStep :=
  verifiedSteps ++ [.message (rangeMessage 11 12 100 2) stopped, .takeAllDown stopped]

theorem verifications_counted_once_passed :
    btcSession.verificationsSent (fun _ => []) passedSteps = 1 ∧
      (btcSession.run (fun _ => []) passedSteps).books.stats.verdicts = (1, 0, 0) ∧
      btcSession.CountedOnce (fun _ => []) passedSteps := by
  refine ⟨by decide +kernel, by decide +kernel, ?_⟩
  exact verifications_counted_once (fun _ => []) btcSession_fresh passedSteps (by decide +kernel)

/-- A verification takes too long, and the next one of the same instrument starts. The
snapshot of the first is loaded for the second, whose own comes when there is one already. -/
def twiceSteps : List SessionStep :=
  syncedSteps ++ [.scheduleVerification stopped 0, .takeJob, .scheduleVerification ⟨60, 0, ⟨0⟩⟩ 60,
    .finishJob (.ok (depthBody 12 2)) ⟨0⟩, .collectSnapshot stopped, .takeJob,
    .finishJob (.ok (depthBody 12 2)) ⟨0⟩, .collectSnapshot stopped]

/-- Of two verifications, one is counted when the connection ends. -/
theorem verification_lost :
    Fresh btcConfig btcTable btcSession ∧
      ¬ btcSession.CountedOnce (fun _ => []) (twiceSteps ++ [.takeAllDown stopped]) := by
  refine ⟨btcSession_fresh, fun hcounted => ?_⟩
  obtain ⟨passed, mismatches, abandoned, htotal, hverdicts⟩ :=
    hcounted twiceSteps (.takeAllDown stopped) (List.prefix_refl _) (.inr rfl)
  have hsent : btcSession.verificationsSent (fun _ => []) twiceSteps = 2 := by decide +kernel
  have hstats : (btcSession.run (fun _ => []) (twiceSteps ++ [.takeAllDown stopped])).books.stats.verdicts =
      (0, 0, 1) := by
    decide +kernel
  rw [hsent] at htotal
  simp only [hstats, Prod.mk.injEq, u64Max] at hverdicts
  omega

end MdSession

end Bowst.Venue
