/-
Bowst.Venue.HandlerTheorems — what every operation of `MdBooks` tells the
handler.

  §1 Steps    — everything an operation can show, and what is live after it.
  §2 Logs     — what the reports so far say of an instrument.
  §3 Closed   — the books fail closed towards their handler.
-/
import Bowst.Venue.BooksTheorems

namespace Bowst.Venue

open Bowst.Lib Bowst.Core Bowst.L2

/-! ## §1 Steps -/

/-- What can be seen from outside: a call of the handler, a snapshot call on an
instrument that returned `Invalid`, and a reset of all books. -/
inductive Observed where
  | call (c : HandlerCall)
  | invalid (instrument : InstrumentId)
  | reset
  deriving DecidableEq, Repr

namespace Observed

/-- `on_book` of an instrument. -/
def onBook (i : InstrumentId) (book : Book) (time : WallTime) : Observed :=
  .call (.onBook i book time)

/-- `InstrumentLive`. -/
def live (i : InstrumentId) : Observed := .call (.onStatus (.instrumentLive i))

/-- `InstrumentDown`. -/
def down (i : InstrumentId) (reason : String) : Observed :=
  .call (.onStatus (.instrumentDown i reason))

end Observed

namespace BooksOp

/-- The calls of the handler that an operation makes. -/
def calls (b : MdBooks) : BooksOp → List HandlerCall
  | .message bytes => (b.onMessage bytes).2.2
  | .snapshot instrument snap fetchedAt => (b.onSnapshot instrument snap fetchedAt).2.2
  | .rawSnapshot instrument body fetchedAt => (b.onRawSnapshot instrument body fetchedAt).2.2
  | .verificationSnapshot instrument snap => (b.onVerificationSnapshot instrument snap).2.2
  | .rawVerificationSnapshot instrument body => (b.onRawVerificationSnapshot instrument body).2.2
  | .startVerification _ | .cancelVerification | .resetAll => []

/-- The other things that can be seen of it. -/
def returns (b : MdBooks) : BooksOp → List Observed
  | .snapshot instrument snap fetchedAt =>
      if (b.onSnapshot instrument snap fetchedAt).1 = .invalid then [.invalid instrument] else []
  | .rawSnapshot instrument body fetchedAt =>
      if (b.onRawSnapshot instrument body fetchedAt).1 = .invalid then [.invalid instrument] else []
  | .resetAll => [.reset]
  | _ => []

/-- A raw snapshot that cannot be decoded, for an instrument whose book is live. -/
def Garbled (b : MdBooks) : BooksOp → Prop
  | .rawSnapshot instrument body _ => b.isLive instrument = true ∧
      ∃ info err, b.instruments.get instrument = some info ∧
        decodeSnapshot info b.snapshotLevels body = .error err
  | _ => False

/-- All that can be seen of an operation. -/
def observed (b : MdBooks) (op : BooksOp) : List Observed :=
  (op.calls b).map .call ++ op.returns b

end BooksOp

namespace MdBooks

/-- Everything an operation can show, with what is live before and after it. -/
inductive OpStep (b b' : MdBooks) : List Observed → Prop
  | quiet (h : ∀ j, b'.isLive j = b.isLive j) : OpStep b b' []
  | book {i : InstrumentId} {book : Book} {time : WallTime} (hlive : b.isLive i = true)
      (hbook : b'.book i = some book) (hothers : ∀ j, j ≠ i → b'.isLive j = b.isLive j) :
      OpStep b b' [.onBook i book time]
  | live {i : InstrumentId} {book : Book} {time : WallTime} (hbook : b'.book i = some book)
      (hothers : ∀ j, j ≠ i → b'.isLive j = b.isLive j) :
      OpStep b b' [.live i, .onBook i book time]
  | down {i : InstrumentId} {reason : String} (hdown : b'.isLive i = false)
      (hothers : ∀ j, j ≠ i → b'.isLive j = b.isLive j) : OpStep b b' [.down i reason]
  | invalid {i : InstrumentId} {reason : String} (hdown : b'.isLive i = false)
      (hothers : ∀ j, j ≠ i → b'.isLive j = b.isLive j) :
      OpStep b b' [.down i reason, .invalid i]
  | unknown {i : InstrumentId} (hdown : b'.isLive i = false)
      (hothers : ∀ j, b'.isLive j = b.isLive j) : OpStep b b' [.invalid i]
  | reset (h : ∀ j, b'.isLive j = false) : OpStep b b' [.reset]

/-- The representation invariant: that of every sync, and one sync for each
instrument. -/
structure Sound (b : MdBooks) : Prop where
  holds : b.Holds fun _ s => s.Inv fun _ _ => True
  sized : b.syncs.length = b.instruments.instruments.length

theorem kept_inv : Kept (fun _ s => s.Inv fun _ _ => True) (fun _ _ => True) where
  call h _ := SyncCall.run_inv h (SyncCall.deltaIs_true _)
  reset _ h := BookSync.invalidate_inv h.book h.ordered.storage

theorem Sound.run {b : MdBooks} (h : b.Sound) (op : BooksOp) : (op.run b).Sound := by
  have htable := run_sameTable b op
  refine ⟨Holds.run kept_inv h.holds ?_, ?_⟩
  · cases op <;> simp [BooksOp.Meets]
  · rw [htable.length, htable.instruments, h.sized]

theorem Sound.inv {b : MdBooks} (h : b.Sound) {i : InstrumentId} {s : BookSync}
    (hs : b.sync? i = some s) : s.Inv fun _ _ => True := h.holds.live i s hs

theorem Sound.new {b : MdBooks} {table : InstrumentTable} {config : SyncConfig}
    {perMessage levels : Nat} (hnew : MdBooks.new table config perMessage levels = some b) :
    b.Sound ∧ ∀ i, b.isLive i = false := by
  have hholds := Holds.new (P := fun _ s => s.Inv (fun _ _ => True) ∧ s.state = .awaitingSnapshot)
    hnew fun _ s hs => ⟨(BookSync.new_inv hs).1, (BookSync.new_inv (D := fun _ _ => True) hs).2.2⟩
  refine ⟨⟨⟨fun i s hs => (hholds.live i s hs).1, ?_⟩, ?_⟩, fun i => ?_⟩
  · obtain ⟨i, hi, hj⟩ := hholds.shadow
    exact ⟨i, hi.1, hj⟩
  · obtain ⟨s, _, rfl⟩ := new_eq hnew
    exact List.length_map _
  · cases hsync : b.sync? i with
    | none => exact isLive_of_sync_none hsync
    | some s =>
        rw [isLive_of_sync hsync, BookSync.isLive, (hholds.live i s hsync).2]

variable {b : MdBooks} {i j : InstrumentId} {s s' : BookSync}

/-- Setting one sync changes nothing for the others. -/
theorem isLive_setSync_of_ne (h : j ≠ i) : (b.setSync i s).isLive j = b.isLive j :=
  isLive_congr (sync?_setSync_of_ne h)

theorem isLive_setSync_self (h : b.sync? i = some s) : (b.setSync i s').isLive i = s'.isLive :=
  isLive_of_sync (sync?_setSync_self h)

/-- A settled verification leaves every book as it was, except one with a
mismatch. -/
theorem Settled.isLive {b' : MdBooks} {m : Option Mismatch} (h : Settled b m b') :
    (m = none ∧ ∀ j, b'.sync? j = b.sync? j) ∨
      ∃ i mismatch, m = some mismatch ∧ b.shadow.instrument = some i ∧ b'.isLive i = false ∧
        ∀ j, j ≠ i → b'.isLive j = b.isLive j := by
  cases h with
  | waiting _ => exact Or.inl ⟨rfl, fun _ => rfl⟩
  | passed _ _ => exact Or.inl ⟨rfl, fun j => by simp⟩
  | mismatch hc hverdict =>
      rename_i i live n m
      have hsync : b.cancelVerification.countMismatch.countInvalidation.sync? i = some live := by
        simpa using hc.sync
      refine Or.inr ⟨_, _, rfl, hc.verifying, ?_, fun j hj => ?_⟩
      · rw [isLive_setSync_self hsync]
        rfl
      · rw [isLive_setSync_of_ne hj]
        exact isLive_congr (by simp)

/-- A delta on the sync of `i`, as the books see it. -/
theorem onDelta_isLive (h : b.Sound) (hsync : b.sync? i = some s) {range : SeqRange}
    {updates : List LevelUpdate} {res : Except SyncError DeltaOutcome}
    (hdelta : s.onDelta range updates = (res, s')) :
    s'.Inv (fun _ _ => True) ∧
      ((res = .ok .applied ∧ s.isLive = true ∧ s'.isLive = true) ∨
        ((∃ outcome, res = .ok outcome ∧ outcome ≠ .applied) ∧ s'.isLive = s.isLive) ∨
        ∃ err, res = .error err ∧ s.isLive = true ∧ s'.isLive = false) := by
  have hstep := s.onDelta_step range updates
  rw [hdelta] at hstep
  exact ⟨hstep.inv (h.inv hsync) trivial, hstep.isLive (h.inv hsync) trivial⟩

/-- A live book after a delta is passed on. -/
theorem opStep_book {b' : MdBooks} {time : WallTime} (hsync : b.sync? i = some s)
    (hinv : s'.Inv fun _ _ => True) (hlive : s.isLive = true) (hlive' : s'.isLive = true)
    (hsyncs : ∀ j, b'.sync? j = (b.setSync i s').sync? j) :
    OpStep b b' ((b'.report (.book i time)).map .call) := by
  have hself : b'.sync? i = some s' := by
    rw [hsyncs, sync?_setSync_self hsync]
  have hshown : b'.book i = some s'.internalBook := by
    rw [book_of_sync hself]
    exact (BookSync.book_of_isLive hinv hlive').1
  rw [report, hshown]
  refine .book ((isLive_of_sync hsync).trans hlive) hshown fun j hj => ?_
  exact isLive_congr ((hsyncs j).trans (sync?_setSync_of_ne hj))

/-- What is seen of an applied message. -/
def reported (b : MdBooks) : Except String Applied → List HandlerCall
  | .ok applied => b.report applied
  | .error _ => []

theorem UpdateStep.opStep (h : b.Sound) {update : DepthUpdate} {res : Except String Applied}
    {b' : MdBooks} (hstep : UpdateStep b update res b') :
    OpStep b b' ((b'.reported res).map .call) := by
  cases hstep with
  | unconfigured _ => exact .quiet fun _ => rfl
  | failed hsync hdelta =>
      rename_i s s' err
      obtain ⟨_, ⟨hres, _⟩ | ⟨⟨_, hres, _⟩, _⟩ | ⟨_, _, _, hdown⟩⟩ :=
        onDelta_isLive h hsync hdelta
      · cases hres
      · cases hres
      · have hsyncs : ∀ j, (if b.shadow.instrument = some update.instrument then
            (b.setSync update.instrument s').cancelVerification
            else b.setSync update.instrument s').countInvalidation.sync? j =
              (b.setSync update.instrument s').sync? j := by
          intro j
          rw [sync?_countInvalidation]
          split
          · exact sync?_cancelVerification
          · rfl
        refine .down ?_ fun j hj => ?_
        · rw [isLive_congr (hsyncs _), isLive_setSync_self hsync]
          exact hdown
        · exact isLive_congr ((hsyncs j).trans (sync?_setSync_of_ne hj))
  | kept hsync hdelta hne =>
      rename_i s s' outcome
      obtain ⟨_, ⟨hres, _⟩ | ⟨_, hsame⟩ | ⟨_, hres, _⟩⟩ := onDelta_isLive h hsync hdelta
      · cases hres
        exact absurd rfl hne
      · refine .quiet fun j => ?_
        have hsyncs : (if b.shadow.instrument = some update.instrument then
            (b.setSync update.instrument s').feedShadow update
            else b.setSync update.instrument s').sync? j =
              (b.setSync update.instrument s').sync? j := by
          split <;> rfl
        rw [isLive_congr hsyncs]
        by_cases hj : j = update.instrument
        · subst hj
          rw [isLive_setSync_self hsync, isLive_of_sync hsync]
          exact hsame
        · exact isLive_setSync_of_ne hj
      · cases hres
  | applied hsync hdelta hother =>
      obtain ⟨hinv, ⟨_, hlive, hlive'⟩ | ⟨⟨_, hres, hne⟩, _⟩ | ⟨_, hres, _⟩⟩ :=
        onDelta_isLive h hsync hdelta
      · exact opStep_book hsync hinv hlive hlive' fun _ => rfl
      · cases hres
        exact absurd rfl hne
      · cases hres
  | passed hsync hdelta hverifying hsettled =>
      obtain ⟨hinv, ⟨_, hlive, hlive'⟩ | ⟨⟨_, hres, hne⟩, _⟩ | ⟨_, hres, _⟩⟩ :=
        onDelta_isLive h hsync hdelta
      · rcases hsettled.isLive with ⟨_, hsyncs⟩ | ⟨_, _, hm, _⟩
        · exact opStep_book hsync hinv hlive hlive' hsyncs
        · cases hm
      · cases hres
        exact absurd rfl hne
      · cases hres
  | mismatch hsync hdelta hverifying hsettled =>
      rcases hsettled.isLive with ⟨hm, _⟩ | ⟨i, _, _, hi, hdown, hothers⟩
      · cases hm
      · have hsame : i = update.instrument := by
          rw [show b.shadow.instrument = some i from hi] at hverifying
          cases hverifying
          rfl
        subst hsame
        exact .down hdown fun j hj => (hothers j hj).trans (isLive_setSync_of_ne hj)

/-- What was live before is all a step says of the books before it. -/
theorem OpStep.congr {b₁ b' : MdBooks} {seen : List Observed} (h : OpStep b₁ b' seen)
    (hlive : ∀ j, b₁.isLive j = b.isLive j) : OpStep b b' seen := by
  cases h with
  | quiet h => exact .quiet fun j => (h j).trans (hlive j)
  | book hl hbook hothers =>
      exact .book ((hlive _).symm.trans hl) hbook fun j hj => (hothers j hj).trans (hlive j)
  | live hbook hothers => exact .live hbook fun j hj => (hothers j hj).trans (hlive j)
  | down hdown hothers => exact .down hdown fun j hj => (hothers j hj).trans (hlive j)
  | invalid hdown hothers => exact .invalid hdown fun j hj => (hothers j hj).trans (hlive j)
  | unknown hdown hothers => exact .unknown hdown fun j => (hothers j).trans (hlive j)
  | reset h => exact .reset h

theorem onMessage_opStep (h : b.Sound) (bytes : Bytes) :
    OpStep b (b.onMessage bytes).2.1 ((b.onMessage bytes).2.2.map .call) := by
  rcases onMessage_cases b bytes with ⟨err, heq⟩ | ⟨update, _, heq⟩
  · rw [heq]
    exact .quiet fun _ => rfl
  · have hcount : b.countMessage.Sound := ⟨⟨h.holds.live, h.holds.shadow⟩, h.sized⟩
    have hstep := (applyUpdate_step b.countMessage update).opStep hcount
    generalize b.countMessage.applyUpdate update = res at hstep heq
    obtain ⟨res, b'⟩ := res
    rw [heq]
    cases res with
    | ok applied => exact hstep.congr fun _ => rfl
    | error err => exact hstep.congr fun _ => rfl

/-- A snapshot on the sync of `i`, as the handler sees it. -/
theorem settle_opStep (h : b.Sound) (hsync : b.sync? i = some s) (seq : Nat)
    (bids asks : List Level) (time : WallTime) :
    OpStep b (b.settle i (s.onSnapshot seq bids asks) time).2.1
      ((b.settle i (s.onSnapshot seq bids asks) time).2.2.map .call ++
        if (b.settle i (s.onSnapshot seq bids asks) time).1 = .invalid then [.invalid i] else []) := by
  have hstep := s.onSnapshot_step seq bids asks
  have hinv := hstep.inv (h.inv hsync)
  have hcases := hstep.isLive (h.inv hsync)
  generalize s.onSnapshot seq bids asks = res at hinv hcases ⊢
  obtain ⟨res, s'⟩ := res
  have hothers : ∀ j, j ≠ i → (b.setSync i s').isLive j = b.isLive j :=
    fun j hj => isLive_setSync_of_ne hj
  have hself : (b.setSync i s').sync? i = some s' := sync?_setSync_self hsync
  rcases hcases with ⟨hres, hlive⟩ | ⟨hres, hsame⟩ | ⟨_, _, hres, hdown, hdown'⟩ |
    ⟨err, hres, hne, hdown⟩
  · simp only at hres
    subst hres
    have hbook := (BookSync.book_of_isLive hinv hlive).1
    simp only at hbook
    simp only [settle, hbook]
    exact .live (by rw [book_of_sync (b := (b.setSync i s').countSnapshot) hself]; exact hbook) hothers
  · simp only at hres hsame
    subst hres
    subst hsame
    refine .quiet fun j => ?_
    by_cases hj : j = i
    · subst hj
      rw [isLive_of_sync hsync]
      exact isLive_of_sync hself
    · exact hothers j hj
  · simp only at hres hdown hdown'
    subst hres
    refine .quiet fun j => ?_
    by_cases hj : j = i
    · subst hj
      rw [isLive_of_sync hsync, hdown]
      exact (isLive_of_sync hself).trans hdown'
    · exact hothers j hj
  · simp only at hres hdown
    subst hres
    have hsettle : b.settle i (.error err, s') time = (.invalid, (b.setSync i s').countInvalidation,
        [.onStatus (.instrumentDown i err.toText)]) := by
      cases err with
      | snapshotTooOld snapshot first => exact absurd rfl (hne snapshot first)
      | _ => rfl
    rw [hsettle]
    exact .invalid ((isLive_of_sync (b := (b.setSync i s').countInvalidation) hself).trans hdown)
      hothers

/-- A verification snapshot, as the handler sees it. -/
theorem afterVerificationSnapshot_opStep (hi : b.shadow.instrument = some i) (loaded : Bool) :
    OpStep b (b.afterVerificationSnapshot i loaded).2.1
      ((b.afterVerificationSnapshot i loaded).2.2.map .call) := by
  unfold afterVerificationSnapshot
  cases loaded with
  | false => exact .quiet fun j => isLive_congr sync?_cancelVerification
  | true =>
      have hsettled := (settleVerification_settled
        { b with shadow := { b.shadow with loaded := true } }).isLive
      simp only [Bool.not_true, Bool.false_eq_true, if_false]
      split <;> rename_i hres <;> rw [hres] at hsettled
      · rcases hsettled with ⟨hm, _⟩ | ⟨i', _, _, hi', hdown, hothers⟩
        · cases hm
        · have hsame : i' = i := by
            rw [show b.shadow.instrument = some i' from hi'] at hi
            cases hi
            rfl
          subst hsame
          exact .down hdown hothers
      · rcases hsettled with ⟨_, hsyncs⟩ | ⟨_, _, hm, _⟩
        · exact .quiet fun j => isLive_congr (hsyncs j)
        · cases hm

theorem onVerificationSnapshot_opStep (i : InstrumentId) (snap : DepthSnapshot) :
    OpStep b (b.onVerificationSnapshot i snap).2.1
      ((b.onVerificationSnapshot i snap).2.2.map .call) := by
  rcases b.onVerificationSnapshot_cases i snap with ⟨-, heq⟩ | ⟨⟨hverifying, -⟩, heq⟩
  · rw [heq]
    exact .quiet fun _ => rfl
  · rw [heq]
    exact (afterVerificationSnapshot_opStep (b := (b.loadShadow snap).2) hverifying _).congr
      fun _ => rfl

/-- A sync belongs to an instrument. -/
theorem Sound.get_eq_none (h : b.Sound) (hi : b.instruments.get i = none) : b.isLive i = false := by
  refine isLive_of_sync_none (List.getElem?_eq_none_iff.mpr ?_)
  rw [h.sized]
  exact List.getElem?_eq_none_iff.mp hi

theorem run_opStep (h : b.Sound) {op : BooksOp} (hop : ¬ op.Garbled b) :
    OpStep b (op.run b) (op.observed b) := by
  cases op with
  | message bytes =>
      show OpStep b _ ((b.onMessage bytes).2.2.map .call ++ [])
      rw [List.append_nil]
      exact onMessage_opStep h bytes
  | snapshot i snap time =>
      show OpStep b (b.onSnapshot i snap time).2.1
        ((b.onSnapshot i snap time).2.2.map .call ++
          if (b.onSnapshot i snap time).1 = .invalid then [.invalid i] else [])
      unfold onSnapshot
      cases hsync : b.sync? i with
      | none => exact .unknown (isLive_of_sync_none hsync) fun _ => rfl
      | some s => exact settle_opStep h hsync _ _ _ time
  | rawSnapshot i body time =>
      show OpStep b (b.onRawSnapshot i body time).2.1
        ((b.onRawSnapshot i body time).2.2.map .call ++
          if (b.onRawSnapshot i body time).1 = .invalid then [.invalid i] else [])
      unfold onRawSnapshot
      cases hinfo : b.instruments.get i with
      | none => exact .unknown (h.get_eq_none hinfo) fun _ => rfl
      | some info =>
          cases hsync : b.sync? i with
          | none => exact .unknown (isLive_of_sync_none hsync) fun _ => rfl
          | some s =>
              cases hdecode : decodeSnapshot info b.snapshotLevels body with
              | ok snap =>
                  simp only [hdecode]
                  exact settle_opStep h hsync _ _ _ time
              | error err =>
                  simp only [hdecode]
                  cases hlive : b.isLive i with
                  | true => exact absurd ⟨hlive, info, err, hinfo, hdecode⟩ hop
                  | false => exact .invalid hlive fun _ _ => rfl
  | startVerification i =>
      refine .quiet fun j => ?_
      show (b.startVerification i).2.isLive j = b.isLive j
      unfold startVerification
      split <;> rfl
  | verificationSnapshot i snap =>
      show OpStep b _ ((b.onVerificationSnapshot i snap).2.2.map .call ++ [])
      rw [List.append_nil]
      exact onVerificationSnapshot_opStep i snap
  | rawVerificationSnapshot i body =>
      show OpStep b _ ((b.onRawVerificationSnapshot i body).2.2.map .call ++ [])
      rw [List.append_nil]
      show OpStep b (b.onRawVerificationSnapshot i body).2.1 _
      rcases b.onRawVerificationSnapshot_cases i body with heq | ⟨hverifying, heq⟩ | ⟨info, snap, -, -, heq⟩
      · rw [heq]
        exact .quiet fun _ => rfl
      · rw [heq]
        exact afterVerificationSnapshot_opStep hverifying false
      · rw [heq]
        exact onVerificationSnapshot_opStep i snap
  | cancelVerification => exact .quiet fun j => isLive_congr sync?_cancelVerification
  | resetAll =>
      refine .reset fun j => ?_
      show b.resetAll.isLive j = false
      rw [isLive, sync?_resetAll]
      cases b.sync? j <;> rfl

end MdBooks

/-! ## §2 Logs -/

namespace Observed

/-- An `InstrumentDown` of an instrument. -/
def isDown (i : InstrumentId) : Observed → Bool
  | .call (.onStatus (.instrumentDown j _)) => j = i
  | _ => false

/-- What says that an instrument is down: a report, or a snapshot call that
returned `Invalid`. -/
def saysDown (i : InstrumentId) : Observed → Bool
  | .invalid j => j = i
  | seen => seen.isDown i

/-- What the handler believes of an instrument after one more thing seen. -/
def believe (i : InstrumentId) (up : Bool) (seen : Observed) : Bool :=
  if seen = .live i then true else if seen.saysDown i || seen = .reset then false else up

end Observed

/-- Whether an instrument is up, as told by a log. -/
def believed (i : InstrumentId) (log : List Observed) : Bool := log.foldl (Observed.believe i) false

variable {i : InstrumentId} {es : List Observed} {seen : Observed}

theorem believed_append (i : InstrumentId) (es es' : List Observed) :
    believed i (es ++ es') = es'.foldl (Observed.believe i) (believed i es) :=
  List.foldl_append

/-- Nothing but `InstrumentLive` makes an instrument up again. -/
theorem foldl_believe_false (h : ∀ e ∈ es, e ≠ .live i) :
    es.foldl (Observed.believe i) false = false := by
  induction es with
  | nil => rfl
  | cons e es ih =>
      have hstep : Observed.believe i false e = false := by
        simp [Observed.believe, h e (by simp)]
      rw [List.foldl_cons, hstep]
      exact ih fun e' he' => h e' (by simp [he'])

theorem believed_of_saysDown {l₁ l₂ : List Observed} (hdown : seen.saysDown i = true)
    (hnone : ∀ e ∈ l₂, e ≠ .live i) : believed i (l₁ ++ seen :: l₂) = false := by
  have hstep : Observed.believe i (believed i l₁) seen = false := by
    have hne : seen ≠ .live i := by
      rintro rfl
      cases hdown
    simp [Observed.believe, hne, hdown]
  rw [believed_append, List.foldl_cons, hstep]
  exact foldl_believe_false hnone

/-- An instrument that is up was reported live, and nothing said otherwise since. -/
theorem believed_eq_true (h : believed i es = true) :
    ∃ l₁ l₂, es = l₁ ++ .live i :: l₂ ∧ ∀ e ∈ l₂, e.saysDown i = false ∧ e ≠ .reset := by
  induction es using List.reverseRecOn with
  | nil => cases h
  | append_singleton es e ih =>
      rw [believed_append, List.foldl_cons, List.foldl_nil, Observed.believe] at h
      by_cases hlive : e = .live i
      · subst hlive
        exact ⟨es, [], rfl, by simp⟩
      · rw [if_neg hlive] at h
        split_ifs at h with hdown
        obtain ⟨l₁, l₂, rfl, hsince⟩ := ih h
        refine ⟨l₁, l₂ ++ [e], by simp, fun e' he' => ?_⟩
        rcases List.mem_append.mp he' with he' | he'
        · exact hsince e' he'
        · rw [List.mem_singleton.mp he']
          simpa using hdown

/-- Every book of an instrument in a log comes while the instrument is up. -/
def Backed (i : InstrumentId) : Bool → List Observed → Prop
  | _, [] => True
  | up, e :: es =>
      (∀ book time, e = .onBook i book time → up = true) ∧ Backed i (Observed.believe i up e) es

theorem backed_append {up : Bool} {es es' : List Observed} :
    Backed i up (es ++ es') ↔
      Backed i up es ∧ Backed i (es.foldl (Observed.believe i) up) es' := by
  induction es generalizing up with
  | nil => simp [Backed]
  | cons e es ih => simp [Backed, ih, and_assoc]

theorem Backed.up {up : Bool} {l₁ l₂ : List Observed} {book : Book} {time : WallTime}
    (h : Backed i up (l₁ ++ .onBook i book time :: l₂)) :
    l₁.foldl (Observed.believe i) up = true :=
  (backed_append.mp h).2.1 book time rfl

/-! ## §3 Closed -/

namespace MdBooks

/-- The books after a run of operations. -/
def runAll (b : MdBooks) (ops : List BooksOp) : MdBooks := ops.foldl BooksOp.run b

/-- All that is seen of a run of operations, in order. -/
def log (b : MdBooks) : List BooksOp → List Observed
  | [] => []
  | op :: ops => op.observed b ++ log (op.run b) ops

theorem runAll_snoc (b : MdBooks) (ops : List BooksOp) (op : BooksOp) :
    b.runAll (ops ++ [op]) = op.run (b.runAll ops) := by
  simp [runAll]

theorem runAll_sameTable (b : MdBooks) (ops : List BooksOp) : SameTable b (b.runAll ops) := by
  induction ops using List.reverseRecOn with
  | nil => exact .refl b
  | append_singleton ops op ih =>
      rw [runAll_snoc]
      exact ih.trans (run_sameTable _ op)

theorem log_snoc (b : MdBooks) (ops : List BooksOp) (op : BooksOp) :
    b.log (ops ++ [op]) = b.log ops ++ op.observed (b.runAll ops) := by
  induction ops generalizing b with
  | nil => simp [log, runAll]
  | cons op' ops ih => simp [log, ih, runAll]

/-- The books fail closed towards their handler in a run from `b`. -/
structure FailClosed (b : MdBooks) (ops : List BooksOp) : Prop where
  /-- Every book passed on is that of a live instrument, and not crossed. -/
  shown : ∀ ops' op i book time, ops' ++ [op] <+: ops →
    .onBook i book time ∈ op.observed (b.runAll ops') →
      (b.runAll (ops' ++ [op])).isLive i = true ∧
        (b.runAll (ops' ++ [op])).book i = some book ∧ book.isCrossed = false
  /-- Once an instrument is said to be down it is, with no book passed on, until
  it is reported live. -/
  down : ∀ ops' i l₁ e l₂, ops' <+: ops → b.log ops' = l₁ ++ e :: l₂ → e.saysDown i = true →
    (∀ e' ∈ l₂, e' ≠ .live i) →
      (b.runAll ops').isLive i = false ∧ ∀ book time, .onBook i book time ∉ l₂
  /-- A book is passed on after the instrument was reported live, with no report
  that it is down and no reset since. -/
  announced : ∀ i l₁ book time l₂, b.log ops = l₁ ++ .onBook i book time :: l₂ →
    ∃ l₃ l₄, l₁ = l₃ ++ .live i :: l₄ ∧ ∀ e ∈ l₄, e.isDown i = false ∧ e ≠ .reset
  /-- A book that goes down other than by a reset of all is reported down once. -/
  reported : ∀ ops' op i, ops' ++ [op] <+: ops → op ≠ .resetAll →
    (b.runAll ops').isLive i = true → (b.runAll (ops' ++ [op])).isLive i = false →
      (op.observed (b.runAll ops')).countP (Observed.isDown i) = 1

variable {b b' : MdBooks} {up : Bool}

theorem isLive_of_book {book : Book} (h : b.book i = some book) : b.isLive i = true := by
  unfold MdBooks.book at h
  cases hsync : b.sync? i with
  | none => simp [hsync] at h
  | some s =>
      rw [hsync] at h
      rw [isLive_of_sync hsync]
      exact (BookSync.isLive_of_book h).1

/-- What is said of one instrument does not change what is believed of others. -/
@[simp] theorem believe_onBook {j : InstrumentId} {book : Book} {time : WallTime} :
    Observed.believe i up (.onBook j book time) = up := by
  simp [Observed.believe, Observed.onBook, Observed.live, Observed.saysDown, Observed.isDown]

@[simp] theorem believe_live {j : InstrumentId} :
    Observed.believe i up (.live j) = if j = i then true else up := by
  simp [Observed.believe, Observed.live, Observed.saysDown, Observed.isDown]

@[simp] theorem believe_down {j : InstrumentId} {reason : String} :
    Observed.believe i up (.down j reason) = if j = i then false else up := by
  simp [Observed.believe, Observed.down, Observed.live, Observed.saysDown, Observed.isDown]

@[simp] theorem believe_invalid {j : InstrumentId} :
    Observed.believe i up (.invalid j) = if j = i then false else up := by
  simp [Observed.believe, Observed.live, Observed.saysDown]

@[simp] theorem onBook_inj {j : InstrumentId} {book book' : Book} {time time' : WallTime} :
    Observed.onBook j book time = .onBook i book' time' ↔ j = i ∧ book = book' ∧ time = time' := by
  simp [Observed.onBook]

@[simp] theorem live_ne_onBook {j : InstrumentId} {book : Book} {time : WallTime} :
    Observed.live j ≠ .onBook i book time := nofun

@[simp] theorem down_ne_onBook {j : InstrumentId} {reason : String} {book : Book}
    {time : WallTime} : Observed.down j reason ≠ .onBook i book time := nofun

@[simp] theorem invalid_ne_onBook {j : InstrumentId} {book : Book} {time : WallTime} :
    Observed.invalid j ≠ .onBook i book time := nofun

@[simp] theorem reset_ne_onBook {book : Book} {time : WallTime} :
    Observed.reset ≠ .onBook i book time := nofun

/-- A step keeps what is live among what the handler believes to be up, and
passes on no other book. -/
theorem OpStep.believed (h : OpStep b b' es) (hup : b.isLive i = true → up = true) :
    (b'.isLive i = true → es.foldl (Observed.believe i) up = true) ∧ Backed i up es := by
  cases h with
  | quiet h => exact ⟨fun hlive => hup (h i ▸ hlive), trivial⟩
  | book hlive hbook hothers =>
      rename_i j book time
      by_cases hj : j = i
      · subst hj
        simp [Backed, hup hlive]
      · simpa [Backed, hj, hothers i (Ne.symm hj)] using hup
  | live hbook hothers =>
      rename_i j book time
      by_cases hj : j = i
      · simp [Backed, hj]
      · simpa [Backed, hj, hothers i (Ne.symm hj)] using hup
  | down hdown hothers =>
      rename_i j reason
      by_cases hj : j = i
      · subst hj
        simp [Backed, hdown]
      · simpa [Backed, hj, hothers i (Ne.symm hj)] using hup
  | invalid hdown hothers =>
      rename_i j reason
      by_cases hj : j = i
      · subst hj
        simp [Backed, hdown]
      · simpa [Backed, hj, hothers i (Ne.symm hj)] using hup
  | unknown hdown hothers =>
      rename_i j
      by_cases hj : j = i
      · subst hj
        simp [Backed, hdown]
      · simpa [Backed, hj, hothers i] using hup
  | reset h => simp [Backed, h i]

/-- A step that takes a book down, and is no reset, says so once. -/
theorem OpStep.reported (h : OpStep b b' es) (hreset : .reset ∉ es) (hlive : b.isLive i = true)
    (hdown : b'.isLive i = false) : es.countP (Observed.isDown i) = 1 := by
  have hsame : ∀ {j}, j ≠ i → (∀ k, k ≠ j → b'.isLive k = b.isLive k) → False := by
    intro j hj hothers
    rw [hothers i (Ne.symm hj), hlive] at hdown
    cases hdown
  cases h with
  | quiet h =>
      rw [h i, hlive] at hdown
      cases hdown
  | book hwas hbook hothers =>
      rename_i j book time
      by_cases hj : j = i
      · subst hj
        rw [isLive_of_book hbook] at hdown
        cases hdown
      · exact (hsame hj hothers).elim
  | live hbook hothers =>
      rename_i j book time
      by_cases hj : j = i
      · subst hj
        rw [isLive_of_book hbook] at hdown
        cases hdown
      · exact (hsame hj hothers).elim
  | down hsaid hothers =>
      rename_i j reason
      by_cases hj : j = i
      · simp [Observed.isDown, Observed.down, hj]
      · exact (hsame hj hothers).elim
  | invalid hsaid hothers =>
      rename_i j reason
      by_cases hj : j = i
      · simp [Observed.isDown, Observed.down, hj]
      · exact (hsame hj hothers).elim
  | unknown _ hothers =>
      rw [hothers i, hlive] at hdown
      cases hdown
  | reset _ => simp at hreset

/-- A book a step passes on is the one shown after it. -/
theorem OpStep.shown (h : OpStep b b' es) {book : Book} {time : WallTime}
    (hmem : .onBook i book time ∈ es) : b'.book i = some book := by
  cases h with
  | book hwas hbook hothers =>
      obtain ⟨rfl, rfl, rfl⟩ := onBook_inj.mp (List.mem_singleton.mp hmem)
      exact hbook
  | live hbook hothers =>
      rename_i j book' time'
      rcases List.mem_cons.mp hmem with hmem | hmem
      · exact absurd hmem.symm live_ne_onBook
      · obtain ⟨rfl, rfl, rfl⟩ := onBook_inj.mp (List.mem_singleton.mp hmem)
        exact hbook
  | _ => simp [Observed.onBook, Observed.down] at hmem

theorem not_crossed_of_book (h : b.Sound) {book : Book} (hbook : b.book i = some book) :
    book.isCrossed = false := by
  cases hsync : b.sync? i with
  | none => simp [MdBooks.book, hsync] at hbook
  | some s =>
      rw [book_of_sync hsync] at hbook
      obtain ⟨hlive, rfl⟩ := BookSync.isLive_of_book hbook
      exact (BookSync.book_of_isLive (h.inv hsync) hlive).2

theorem reset_not_mem {op : BooksOp} (hop : op ≠ .resetAll) : .reset ∉ op.observed b := by
  cases op with
  | resetAll => exact absurd rfl hop
  | _ => simp [BooksOp.observed, BooksOp.returns]

/-- What is seen of a garbled snapshot: the book is said to be down, and stays
as it was. -/
theorem garbled_step {op : BooksOp} (hop : op.Garbled b) :
    ∃ i reason, b.isLive i = true ∧ op.run b = b ∧
      op.observed b = [.down i reason, .invalid i] := by
  cases op with
  | rawSnapshot i body time =>
      obtain ⟨hlive, info, err, hinfo, hdecode⟩ := hop
      cases hsync : b.sync? i with
      | none => simp [isLive_of_sync_none hsync] at hlive
      | some s =>
          refine ⟨i, s!"snapshot decode: {err.toText}", hlive, ?_, ?_⟩
          · simp [BooksOp.run, onRawSnapshot, hinfo, hsync, hdecode]
          · simp [BooksOp.observed, BooksOp.calls, BooksOp.returns, onRawSnapshot, hinfo, hsync,
              hdecode, Observed.down]
  | _ => exact hop.elim

/-- The invariant of a run: what is live is believed to be up, and books are
passed on only while they are. -/
structure Told (b : MdBooks) (ops : List BooksOp) : Prop where
  sound : (b.runAll ops).Sound
  live : ∀ i, (b.runAll ops).isLive i = true → believed i (b.log ops) = true
  backed : ∀ i, Backed i false (b.log ops)

theorem Told.snoc {ops : List BooksOp} {op : BooksOp} (h : b.Told ops)
    (hop : ¬ op.Garbled (b.runAll ops)) : b.Told (ops ++ [op]) := by
  have hstep := run_opStep h.sound hop
  refine ⟨?_, fun i => ?_, fun i => ?_⟩
  · rw [runAll_snoc]
    exact h.sound.run op
  · rw [runAll_snoc, log_snoc, believed_append]
    exact (hstep.believed (h.live i)).1
  · rw [log_snoc]
    exact backed_append.mpr ⟨h.backed i, (hstep.believed (h.live i)).2⟩

/-- A run without garbled snapshots keeps the invariant. -/
theorem Told.run {ops : List BooksOp} (hsound : b.Sound) (hdown : ∀ i, b.isLive i = false)
    (hops : ∀ ops' op, ops' ++ [op] <+: ops → ¬ op.Garbled (b.runAll ops')) : b.Told ops := by
  induction ops using List.reverseRecOn with
  | nil => exact ⟨hsound, fun i hlive => by simp [runAll, hdown i] at hlive, fun _ => trivial⟩
  | append_singleton ops op ih =>
      have hbefore := ih fun ops' op' h => hops ops' op' (h.trans (List.prefix_append ops [op]))
      exact hbefore.snoc (hops ops op List.prefix_rfl)

/-- The books fail closed towards their handler: books that are passed on are
live and not crossed, what is reported down is down, and what goes down is
reported down. This is so exactly when no raw snapshot of an instrument that is
live fails to decode. -/
theorem books_fail_closed_iff {table : InstrumentTable} {config : SyncConfig}
    {perMessage levels : Nat} (hnew : MdBooks.new table config perMessage levels = some b)
    (ops : List BooksOp) :
    b.FailClosed ops ↔ ∀ ops' op, ops' ++ [op] <+: ops → ¬ op.Garbled (b.runAll ops') := by
  obtain ⟨hsound, hdown⟩ := Sound.new hnew
  constructor
  · intro h ops' op hpre hop
    obtain ⟨i, reason, hlive, hrun, hseen⟩ := garbled_step hop
    have hlog : b.log (ops' ++ [op]) = b.log ops' ++ .down i reason :: [.invalid i] := by
      rw [log_snoc, hseen]
    have hfalse := (h.down _ i _ _ _ hpre hlog (by simp [Observed.saysDown, Observed.down,
      Observed.isDown]) (by simp [Observed.live])).1
    rw [runAll_snoc, hrun, hlive] at hfalse
    cases hfalse
  · intro hops
    have htold : ∀ ops', ops' <+: ops → b.Told ops' := fun ops' hpre =>
      .run hsound hdown fun ops'' op h => hops ops'' op (h.trans hpre)
    have hstep : ∀ ops' op, ops' ++ [op] <+: ops →
        OpStep (b.runAll ops') (b.runAll (ops' ++ [op])) (op.observed (b.runAll ops')) := by
      intro ops' op hpre
      rw [runAll_snoc]
      exact run_opStep (htold ops' ((List.prefix_append _ _).trans hpre)).sound
        (hops ops' op hpre)
    refine ⟨?_, ?_, ?_, ?_⟩
    · intro ops' op i book time hpre hmem
      have hbook := (hstep ops' op hpre).shown hmem
      exact ⟨isLive_of_book hbook, hbook,
        not_crossed_of_book (htold _ hpre).sound hbook⟩
    · intro ops' i l₁ e l₂ hpre hlog hsaid hnone
      have htold := htold ops' hpre
      constructor
      · by_contra hlive
        have hup := htold.live i (by simpa using hlive)
        rw [hlog, believed_of_saysDown hsaid hnone] at hup
        cases hup
      · -- a book in between would come while the instrument is not up
        intro book time hmem
        obtain ⟨l₃, l₄, rfl⟩ := List.append_of_mem hmem
        have hbacked := htold.backed i
        rw [hlog, ← List.cons_append, ← List.append_assoc] at hbacked
        have hup := hbacked.up
        rw [← believed, believed_of_saysDown hsaid fun e' he' => hnone e' (by simp [he'])] at hup
        cases hup
    · intro i l₁ book time l₂ hlog
      have hbacked := (htold ops List.prefix_rfl).backed i
      rw [hlog] at hbacked
      obtain ⟨l₃, l₄, hsplit, hsince⟩ := believed_eq_true hbacked.up
      refine ⟨l₃, l₄, hsplit, fun e he => ⟨?_, (hsince e he).2⟩⟩
      have hsaid := (hsince e he).1
      cases e with
      | invalid j => rfl
      | _ => exact hsaid
    · intro ops' op i hpre hop hlive hdown'
      exact (hstep ops' op hpre).reported (reset_not_mem hop) hlive hdown'

end MdBooks

/-- A raw snapshot that is no JSON object, before and after the book is live. -/
def garbledOps : List BooksOp :=
  [.rawSnapshot ⟨0⟩ (ascii "[]") ⟨0⟩, .snapshot ⟨0⟩ ⟨10, [⟨100, 1⟩], [⟨101, 1⟩]⟩ ⟨0⟩,
    .message (bidMessage 11 99 1), .rawSnapshot ⟨0⟩ (ascii "[]") ⟨0⟩]

/-- The last of them reports the book down, and it is still live. -/
theorem books_live_after_down_report :
    MdBooks.new btcTable ⟨4, 4, 4⟩ 10 10 = some (btcBooks ⟨4, 4, 4⟩) ∧
      ¬ (btcBooks ⟨4, 4, 4⟩).FailClosed garbledOps := by
  refine ⟨by decide, fun h => ?_⟩
  have hlog : (btcBooks ⟨4, 4, 4⟩).log garbledOps =
      ((btcBooks ⟨4, 4, 4⟩).log garbledOps).take 6 ++ .invalid ⟨0⟩ :: [] := by
    decide +kernel
  have hdown := (h.down garbledOps ⟨0⟩ _ _ _ List.prefix_rfl hlog rfl (by simp)).1
  have hlive : ((btcBooks ⟨4, 4, 4⟩).runAll garbledOps).isLive ⟨0⟩ = true := by
    decide +kernel
  rw [hlive] at hdown
  cases hdown

/-- The others, the first of which comes while the book is not live, are as they
should be. -/
theorem books_fail_closed_before_garbled :
    MdBooks.new btcTable ⟨4, 4, 4⟩ 10 10 = some (btcBooks ⟨4, 4, 4⟩) ∧
      (btcBooks ⟨4, 4, 4⟩).FailClosed (garbledOps.take 3) := by
  have hnew : MdBooks.new btcTable ⟨4, 4, 4⟩ 10 10 = some (btcBooks ⟨4, 4, 4⟩) := by decide
  refine ⟨hnew, (MdBooks.books_fail_closed_iff hnew _).mpr fun ops' op hpre hop => ?_⟩
  match ops', op, hop with
  | [], .rawSnapshot i body time, hop =>
      obtain rfl : i = ⟨0⟩ := by
        simp [garbledOps] at hpre
        exact hpre.1
      exact Bool.false_ne_true hop.1
  | _ :: ops', .rawSnapshot i body time, hop =>
      have hmem := (List.cons_prefix_cons.mp hpre).2.mem
        (a := .rawSnapshot i body time) (by simp)
      simp at hmem

end Bowst.Venue
