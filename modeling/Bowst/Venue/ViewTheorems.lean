/-
Bowst.Venue.ViewTheorems — a handler that keeps what it is shown holds the books.

  §1 Views   — the book that a handler holds of an instrument.
  §2 Books   — every operation of the books shows what it changes.
  §3 Session — and so does every step of the session, but for the end of a connection.
-/
import Bowst.Venue.MdThreadTheorems

namespace Bowst.Venue

open Bowst.Core Bowst.L2

/-! ## §1 Views -/

/-- What is known of the book of an instrument. -/
structure View where
  live : Bool
  book : Option Book
  deriving DecidableEq, Repr

/-- Nothing is known of a book that is down. -/
def View.down : View := ⟨false, none⟩

/-- What a handler knows of an instrument behind a call: the last book it was shown, until
it is told that the instrument is down or the connection is gone. -/
def HandlerCall.see (i : InstrumentId) (view : View) : HandlerCall → View
  | .onBook j book _ => if j = i then { view with book := some book } else view
  | .onStatus (.instrumentLive j) => if j = i then { view with live := true } else view
  | .onStatus (.instrumentDown j _) => if j = i then .down else view
  | .onStatus (.disconnected _) => .down
  | .onStatus _ => view

/-- The instrument whose book a call is about. -/
def HandlerCall.bookOf? : HandlerCall → Option InstrumentId
  | .onBook i _ _ | .onStatus (.instrumentLive i) | .onStatus (.instrumentDown i _) => some i
  | .onStatus _ => none

/-- What a handler knows of an instrument behind calls. -/
def held (i : InstrumentId) (calls : List HandlerCall) : View :=
  calls.foldl (HandlerCall.see i) .down

section See

variable {i j : InstrumentId} {book : Book} {view : View}

@[simp] theorem see_onBook {time : WallTime} :
    HandlerCall.see i view (.onBook j book time) =
      if j = i then { view with book := some book } else view := rfl

@[simp] theorem see_live :
    HandlerCall.see i view (.onStatus (.instrumentLive j)) =
      if j = i then { view with live := true } else view := rfl

@[simp] theorem see_down {reason : String} :
    HandlerCall.see i view (.onStatus (.instrumentDown j reason)) =
      if j = i then .down else view := rfl

theorem see_of_ne {call : HandlerCall} (h : call.bookOf? = some j) (hne : j ≠ i) :
    call.see i view = view := by
  cases call with
  | onBook k book time =>
      cases h
      exact if_neg hne
  | onStatus status =>
      cases status with
      | instrumentLive k =>
          cases h
          exact if_neg hne
      | instrumentDown k reason =>
          cases h
          exact if_neg hne
      | connecting | connected | disconnected | snapshotFailed => cases h

theorem foldl_see_of_ne {calls : List HandlerCall} (h : ∀ call ∈ calls, call.bookOf? = some j)
    (hne : j ≠ i) : calls.foldl (HandlerCall.see i) view = view := by
  induction calls with
  | nil => rfl
  | cons call calls ih =>
      rw [List.foldl_cons, see_of_ne (h call (List.mem_cons_self ..)) hne]
      exact ih fun call hcall => h call (List.mem_cons_of_mem _ hcall)

theorem held_append (i : InstrumentId) (calls calls' : List HandlerCall) :
    held i (calls ++ calls') = calls'.foldl (HandlerCall.see i) (held i calls) :=
  List.foldl_append

end See

/-! ## §2 Books -/

/-- What there is to know of the book under a sync. -/
def BookSync.view (s : BookSync) : View := ⟨s.isLive, s.book⟩

theorem BookSync.view_of_down {s : BookSync} (h : s.isLive = false) : BookSync.view s = .down := by
  have hbook : s.book = none := by
    cases hbook : s.book with
    | none => rfl
    | some book => rw [(BookSync.isLive_of_book hbook).1] at h; cases h
  rw [BookSync.view, h, hbook]
  rfl

theorem BookSync.view_of_live {s : BookSync} (hinv : s.Inv fun _ _ => True)
    (h : s.isLive = true) : BookSync.view s = ⟨true, some s.internalBook⟩ := by
  rw [BookSync.view, h, (BookSync.book_of_isLive hinv h).1]

namespace MdBooks

/-- What there is to know of the book of an instrument. -/
def view (b : MdBooks) (i : InstrumentId) : View := ⟨b.isLive i, b.book i⟩

/-- Calls that show what became of the books, and are about no others. -/
structure Shows (b b' : MdBooks) (calls : List HandlerCall) : Prop where
  view : ∀ i, calls.foldl (HandlerCall.see i) (b.view i) = b'.view i
  known : ∀ call ∈ calls, ∀ i, call.bookOf? = some i → (b.sync? i).isSome

variable {b b' : MdBooks} {i j : InstrumentId} {s s' : BookSync}

theorem view_of_sync (h : b.sync? i = some s) : b.view i = BookSync.view s := by
  rw [view, isLive_of_sync h, book_of_sync h]
  rfl

theorem view_congr (h : b'.sync? i = b.sync? i) : b'.view i = b.view i := by
  rw [view, view, isLive, isLive, book, book, h]

/-- The books did not change, or only what is not shown. -/
theorem Shows.quiet (h : ∀ j, b'.sync? j = b.sync? j) : Shows b b' [] :=
  ⟨fun j => (view_congr (h j)).symm, by simp⟩

theorem Shows.congr {b₁ : MdBooks} {calls : List HandlerCall} (h : Shows b₁ b' calls)
    (hsyncs : ∀ j, b₁.sync? j = b.sync? j) : Shows b b' calls := by
  refine ⟨fun i => ?_, fun call hcall i hi => ?_⟩
  · rw [← view_congr (hsyncs i)]
    exact h.view i
  · rw [← hsyncs i]
    exact h.known call hcall i hi

/-- One sync changed, and the calls are about its instrument. -/
theorem Shows.one {calls : List HandlerCall} (hsync : b.sync? i = some s)
    (hsyncs : ∀ j, b'.sync? j = (b.setSync i s').sync? j)
    (hcalls : ∀ call ∈ calls, call.bookOf? = some i)
    (hself : calls.foldl (HandlerCall.see i) (BookSync.view s) = BookSync.view s') :
    Shows b b' calls := by
  refine ⟨fun j => ?_, fun call hcall j hj => ?_⟩
  · by_cases hj : i = j
    · subst hj
      rw [view_of_sync hsync, hself, view_of_sync ((hsyncs i).trans (sync?_setSync_self hsync))]
    · rw [foldl_see_of_ne hcalls hj]
      exact (view_congr ((hsyncs j).trans (sync?_setSync_of_ne (Ne.symm hj)))).symm
  · cases (hcalls call hcall).symm.trans hj
    rw [hsync]
    rfl

/-- A book that went down, as reported. -/
theorem Shows.down {reason : String} (hsync : b.sync? i = some s)
    (hsyncs : ∀ j, b'.sync? j = (b.setSync i s').sync? j) (hdown : s'.isLive = false) :
    Shows b b' [.onStatus (.instrumentDown i reason)] := by
  refine .one hsync hsyncs (by simp [HandlerCall.bookOf?]) ?_
  simp [BookSync.view_of_down hdown]

/-- A book that is live before and behind a message, as reported. -/
theorem Shows.book {time : WallTime} (hsync : b.sync? i = some s)
    (hsyncs : ∀ j, b'.sync? j = (b.setSync i s').sync? j) (hlive : s.isLive = true)
    (hview : BookSync.view s' = ⟨true, some s'.internalBook⟩) :
    Shows b b' (b'.report (.book i time)) := by
  have hshown : b'.book i = some s'.internalBook := by
    rw [book_of_sync ((hsyncs i).trans (sync?_setSync_self hsync))]
    exact congrArg View.book hview
  rw [report, hshown]
  refine .one hsync hsyncs (by simp [HandlerCall.bookOf?]) ?_
  rw [hview]
  simp [BookSync.view, hlive]

/-- A delta that was not applied leaves the book as it was. -/
theorem view_of_kept (h : b.Sound) (hsync : b.sync? i = some s) {range : SeqRange}
    {updates : List LevelUpdate} {outcome : DeltaOutcome}
    (hdelta : s.onDelta range updates = (.ok outcome, s')) (hne : outcome ≠ .applied) :
    BookSync.view s = BookSync.view s' := by
  have hstep := s.onDelta_step range updates
  have hlive := (onDelta_isLive h hsync hdelta).2
  rw [hdelta] at hstep
  generalize hres : (Except.ok outcome : Except SyncError DeltaOutcome) = res at hstep
  cases hstep with
  | stale => rfl
  | buffered hstate =>
      have hdown : s.isLive = false := by
        unfold BookSync.isLive
        rw [hstate]
      rcases hlive with ⟨-, hup, -⟩ | ⟨-, hsame⟩ | ⟨_, hfailed, -⟩
      · rw [hdown] at hup
        cases hup
      · rw [BookSync.view_of_down hdown, BookSync.view_of_down (hsame.trans hdown)]
      · cases hfailed
  | applied => cases hres; exact absurd rfl hne
  | gap | invalid | crossed => cases hres

/-- A mismatch resets the sync that was verified, and no other. -/
theorem Settled.reset {m : Mismatch} (h : Settled b (some m) b')
    (hi : b.shadow.instrument = some i) :
    ∃ live : BookSync, b.sync? i = some live ∧
      ∀ j, b'.sync? j = (b.setSync i live.reset).sync? j := by
  cases h with
  | mismatch hc hverdict =>
      rename_i i' live n
      have hsame : i' = i := Option.some.inj (hc.verifying.symm.trans hi)
      subst hsame
      have hsync : b.cancelVerification.countMismatch.countInvalidation.sync? i' = some live := by
        simpa using hc.sync
      refine ⟨live, hc.sync, fun j => ?_⟩
      by_cases hj : j = i'
      · subst hj
        rw [sync?_setSync_self hsync, sync?_setSync_self hc.sync]
      · rw [sync?_setSync_of_ne hj, sync?_setSync_of_ne hj]
        simp

theorem UpdateStep.shows (h : b.Sound) {update : DepthUpdate} {res : Except String Applied}
    (hstep : UpdateStep b update res b') : Shows b b' (b'.reported res) := by
  -- A book that was applied to was live, and is.
  have happlied : ∀ {s s' : BookSync}, b.sync? update.instrument = some s →
      s.onDelta update.range update.updates = (.ok .applied, s') →
      s.isLive = true ∧ BookSync.view s' = ⟨true, some s'.internalBook⟩ := by
    intro s s' hsync hdelta
    obtain ⟨hinv, ⟨-, hbefore, hlive⟩ | ⟨⟨_, hres, hne⟩, -⟩ | ⟨_, hres, -⟩⟩ :=
      onDelta_isLive h hsync hdelta
    · exact ⟨hbefore, BookSync.view_of_live hinv hlive⟩
    · cases hres
      exact absurd rfl hne
    · cases hres
  cases hstep with
  | unconfigured => exact .quiet fun _ => rfl
  | failed hsync hdelta =>
      obtain ⟨-, ⟨hres, -⟩ | ⟨⟨_, hres, -⟩, -⟩ | ⟨_, -, -, hdown⟩⟩ := onDelta_isLive h hsync hdelta
      · cases hres
      · cases hres
      · refine .down hsync (fun j => ?_) hdown
        rw [sync?_countInvalidation]
        split
        · exact sync?_cancelVerification
        · rfl
  | kept hsync hdelta hne =>
      refine .one hsync (fun j => ?_) (fun _ hcall => by cases hcall)
        (view_of_kept h hsync hdelta hne)
      split <;> rfl
  | applied hsync hdelta =>
      obtain ⟨hlive, hview⟩ := happlied hsync hdelta
      exact .book hsync (fun _ => rfl) hlive hview
  | passed hsync hdelta hverifying hsettled =>
      rcases hsettled.isLive with ⟨-, hsyncs⟩ | ⟨_, _, hm, -⟩
      · obtain ⟨hlive, hview⟩ := happlied hsync hdelta
        exact .book hsync hsyncs hlive hview
      · cases hm
  | mismatch hsync hdelta hverifying hsettled =>
      obtain ⟨live, hlive, hsyncs⟩ := hsettled.reset (by exact hverifying)
      refine .down hsync (fun j => ?_) (show live.reset.isLive = false from rfl)
      by_cases hj : j = update.instrument
      · subst hj
        rw [hsyncs, sync?_setSync_self hlive, sync?_setSync_self hsync]
      · rw [hsyncs, sync?_setSync_of_ne hj, sync?_setSync_of_ne hj]
        exact sync?_setSync_of_ne hj

/-- Decoding and applying a message. -/
theorem apply_shows (h : b.Sound) (bytes : Bytes) :
    Shows b (b.apply bytes).2 ((b.apply bytes).2.reported (b.apply bytes).1) := by
  have hcount : b.countMessage.Sound := ⟨⟨h.holds.live, h.holds.shadow⟩, h.sized⟩
  unfold apply
  dsimp only
  split
  · exact .quiet fun _ => rfl
  · rename_i update _
    exact ((applyUpdate_step b.countMessage update).shows hcount).congr fun _ => rfl

/-- A snapshot on the sync of an instrument. -/
theorem settle_shows (h : b.Sound) (hsync : b.sync? i = some s) (seq : Nat)
    (bids asks : List Level) (time : WallTime) :
    Shows b (b.settle i (s.onSnapshot seq bids asks) time).2.1
      (b.settle i (s.onSnapshot seq bids asks) time).2.2 := by
  have hstep := s.onSnapshot_step seq bids asks
  have hinv := hstep.inv (h.inv hsync)
  have hcases := hstep.isLive (h.inv hsync)
  generalize s.onSnapshot seq bids asks = res at hinv hcases ⊢
  obtain ⟨res, s'⟩ := res
  rcases hcases with ⟨hres, hlive⟩ | ⟨hres, hsame⟩ | ⟨_, _, hres, hdown, hdown'⟩ |
    ⟨err, hres, hne, hdown⟩
  · simp only at hres
    subst hres
    have hbook := (BookSync.book_of_isLive hinv hlive).1
    simp only at hbook
    simp only [settle, hbook]
    refine .one hsync (fun _ => rfl) (by simp [HandlerCall.bookOf?]) ?_
    simp [BookSync.view_of_live hinv hlive]
  · simp only at hres hsame
    subst hres
    subst hsame
    exact .one hsync (fun _ => rfl) (fun _ hcall => by cases hcall) rfl
  · simp only at hres hdown hdown'
    subst hres
    refine .one hsync (fun _ => rfl) (fun _ hcall => by cases hcall) ?_
    exact (BookSync.view_of_down hdown).trans (BookSync.view_of_down hdown').symm
  · simp only at hres hdown
    subst hres
    have hsettle : b.settle i (.error err, s') time = (.invalid, (b.setSync i s').countInvalidation,
        [.onStatus (.instrumentDown i err.toText)]) := by
      cases err with
      | snapshotTooOld snapshot first => exact absurd rfl (hne snapshot first)
      | _ => rfl
    rw [hsettle]
    exact .down hsync (fun _ => rfl) hdown

theorem onSnapshot_shows (h : b.Sound) (i : InstrumentId) (snapshot : DepthSnapshot)
    (fetchedAt : WallTime) :
    Shows b (b.onSnapshot i snapshot fetchedAt).2.1 (b.onSnapshot i snapshot fetchedAt).2.2 := by
  unfold onSnapshot
  cases hsync : b.sync? i with
  | none => exact .quiet fun _ => rfl
  | some s => exact settle_shows h hsync _ _ _ _

theorem onVerificationSnapshot_shows (i : InstrumentId) (snapshot : DepthSnapshot) :
    Shows b (b.onVerificationSnapshot i snapshot).2.1
      (b.onVerificationSnapshot i snapshot).2.2 := by
  rcases b.onVerificationSnapshot_cases i snapshot with ⟨-, heq⟩ | ⟨⟨hverifying, -⟩, heq⟩
  · rw [heq]
    exact .quiet fun _ => rfl
  · rw [heq]
    have hsyncs : ∀ j, (b.loadShadow snapshot).2.sync? j = b.sync? j := fun _ => rfl
    refine Shows.congr ?_ hsyncs
    have hi : (b.loadShadow snapshot).2.shadow.instrument = some i := hverifying
    generalize (b.loadShadow snapshot).2 = b₁ at hi ⊢
    unfold afterVerificationSnapshot
    cases (b.loadShadow snapshot).1 with
    | false => exact .quiet fun _ => sync?_cancelVerification
    | true =>
        have hsettled := settleVerification_settled { b₁ with shadow := { b₁.shadow with loaded := true } }
        simp only [Bool.not_true, Bool.false_eq_true, if_false]
        split <;> rename_i hres <;> rw [hres] at hsettled
        · obtain ⟨live, hlive, hsyncs⟩ := hsettled.reset hi
          have hdown : live.reset.isLive = false := rfl
          exact .down hlive hsyncs hdown
        · rcases hsettled.isLive with ⟨-, hsyncs⟩ | ⟨_, _, hm, -⟩
          · exact .quiet hsyncs
          · cases hm

end MdBooks

/-! ## §3 Session -/

/-- A session whose books stay sound, and whose handler is shown what became of them. -/
structure Shown (s s' : MdSession) (calls : List HandlerCall) : Prop where
  sound : s'.books.Sound
  instruments : s'.books.instruments = s.books.instruments
  handler : s'.handler = s.handler ++ calls
  view : ∀ i, calls.foldl (HandlerCall.see i) (s.books.view i) = s'.books.view i
  known : ∀ call ∈ calls, ∀ i, call.bookOf? = some i →
    i.index < s.books.instruments.instruments.length

/-- A step that keeps to this. -/
def Tells (s s' : MdSession) : Prop := s.books.Sound → ∃ calls, Shown s s' calls

section Tells

variable {s s' s'' : MdSession}

theorem Tells.trans (h : Tells s s') (h' : Tells s' s'') : Tells s s'' := by
  intro hsound
  obtain ⟨calls, hshown⟩ := h hsound
  obtain ⟨calls', hshown'⟩ := h' hshown.sound
  refine ⟨calls ++ calls', hshown'.sound, hshown'.instruments.trans hshown.instruments, ?_,
    fun i => ?_, fun call hcall i hi => ?_⟩
  · rw [hshown'.handler, hshown.handler, List.append_assoc]
  · rw [List.foldl_append, hshown.view i, hshown'.view i]
  · rcases List.mem_append.mp hcall with hcall | hcall
    · exact hshown.known call hcall i hi
    · rw [← hshown.instruments]
      exact hshown'.known call hcall i hi

/-- The counters of the books are not shown. -/
theorem Tells.stats (hhandler : s'.handler = s.handler)
    (hbooks : ∃ stats, s'.books = { s.books with stats }) : Tells s s' := by
  obtain ⟨stats, hbooks⟩ := hbooks
  intro hsound
  refine ⟨[], ?_, by rw [hbooks], by rw [hhandler, List.append_nil], fun i => ?_, by simp⟩
  · rw [hbooks]
    exact ⟨⟨hsound.holds.live, hsound.holds.shadow⟩, hsound.sized⟩
  · exact (MdBooks.view_congr (by rw [hbooks]; rfl)).symm

theorem Tells.unseen (h : Unseen s s') : Tells s s' := .stats h.handler h.books

/-- An operation of the books that shows what it changes. -/
theorem Tells.op {calls : List HandlerCall} (op : BooksOp) (hbooks : s'.books = op.run s.books)
    (hhandler : s'.handler = s.handler ++ calls)
    (hshows : s.books.Sound → s.books.Shows (op.run s.books) calls) : Tells s s' := by
  intro hsound
  obtain ⟨hview, hknown⟩ := hshows hsound
  refine ⟨calls, ?_, ?_, hhandler, fun i => ?_, fun call hcall i hi => ?_⟩
  · rw [hbooks]
    exact hsound.run op
  · rw [hbooks]
    exact (MdBooks.run_sameTable s.books op).instruments
  · rw [hbooks]
    exact hview i
  · rw [← hsound.sized]
    have hsync := hknown call hcall i hi
    rw [MdBooks.sync?, isSome_getElem?] at hsync
    simpa using hsync

/-- An operation of the books that touches no sync but that of the verification. -/
theorem Tells.quiet (op : BooksOp) (hbooks : s'.books = op.run s.books)
    (hhandler : s'.handler = s.handler)
    (hsyncs : ∀ i, (op.run s.books).sync? i = s.books.sync? i) : Tells s s' :=
  .op op hbooks (by rw [hhandler, List.append_nil]) fun _ => .quiet hsyncs

theorem tells_message (s : MdSession) (bytes : Bytes) (clock : Readings) :
    Tells s (s.message bytes clock) := by
  let applied : MdSession :=
    { s.record .mdMessage none [bytes] clock with books := (s.books.apply bytes).2 }
  have hrun : (BooksOp.message bytes).run s.books = (s.books.apply bytes).2 := by
    show (s.books.onMessage bytes).2.1 = _
    unfold MdBooks.onMessage
    split <;> rename_i heq <;> rw [heq]
  have htold : Tells s (applied.tell ((s.books.apply bytes).2.reported (s.books.apply bytes).1)) :=
    .op (.message bytes) hrun.symm rfl fun hsound => by
      rw [hrun]
      exact MdBooks.apply_shows hsound bytes
  refine htold.trans ?_
  show Tells _ (applied.afterMessage (s.books.apply bytes).1)
  cases (s.books.apply bytes).1 with
  | error err => exact .unseen ⟨by exact (List.append_nil _).symm, rfl, _, rfl⟩
  | ok what => exact .unseen (unseen_afterApply applied what)

theorem tells_useSnapshot (s : MdSession) (id : InstrumentId) (snapshot : OwnedSnapshot)
    (clock : Readings) : Tells s (s.useSnapshot id snapshot clock) := by
  unfold MdSession.useSnapshot
  dsimp only
  refine Tells.trans ?_ (.unseen (unseen_setState _ id _))
  exact .op (.snapshot id snapshot.toDepthSnapshot snapshot.fetchedAt) rfl rfl
    fun hsound => MdBooks.onSnapshot_shows hsound id snapshot.toDepthSnapshot snapshot.fetchedAt

theorem tells_useVerificationSnapshot (s : MdSession) (id : InstrumentId)
    (snapshot : OwnedSnapshot) (clock : Readings) :
    Tells s (s.useVerificationSnapshot id snapshot clock) := by
  unfold MdSession.useVerificationSnapshot
  dsimp only
  refine Tells.trans ?_ (.unseen (unseen_afterVerdict _ id _))
  exact .op (.verificationSnapshot id snapshot.toDepthSnapshot) rfl rfl
    fun _ => MdBooks.onVerificationSnapshot_shows id snapshot.toDepthSnapshot

theorem tells_abandonVerification (s : MdSession) : Tells s s.abandonVerification :=
  have hcancelled :
      Tells s { s with books := s.books.cancelVerification, verification := none } :=
    .quiet .cancelVerification rfl rfl fun _ => MdBooks.sync?_cancelVerification
  hcancelled.trans (.unseen (unseen_countAbandoned _))

/-- A status that no view depends on. -/
theorem tells_status (debugText : MdStatus → Bytes) (s : MdSession) {status : MdStatus}
    (clock : Readings)
    (hstatus : ∀ i view, HandlerCall.see i view (.onStatus status) = view)
    (hbook : (HandlerCall.onStatus status).bookOf? = none) :
    Tells s (s.status debugText status clock) :=
  fun hsound => ⟨[.onStatus status], hsound, rfl, rfl, fun i => hstatus i _, by simp [hbook]⟩

theorem tells_collectSnapshot (debugText : MdStatus → Bytes) (s : MdSession) (clock : Readings) :
    Tells s (s.collectSnapshot debugText clock) := by
  unfold MdSession.collectSnapshot
  split
  · exact .unseen (.refl s)
  · rename_i result results _
    dsimp only
    have hpop : Tells s { s with results } := .unseen ⟨rfl, rfl, _, rfl⟩
    split
    · exact hpop
    · split
      · unfold MdSession.applySnapshot
        split
        · exact hpop.trans (.trans (.unseen (unseen_setState _ result.instrument _))
            (tells_status debugText _ clock (fun _ _ => rfl) rfl))
        · exact hpop.trans (tells_useSnapshot _ _ _ clock)
      · unfold MdSession.applyVerificationSnapshot
        split
        · exact hpop
        · split
          · exact hpop
          · split
            · exact hpop.trans (tells_abandonVerification _)
            · exact hpop.trans (tells_useVerificationSnapshot _ _ _ clock)

theorem tells_verifyNext (s : MdSession) (clock : Readings) (steps : List Nat) :
    Tells s (s.verifyNext clock steps) := by
  induction steps with
  | nil => exact .unseen (.refl s)
  | cons step steps ih =>
      unfold MdSession.verifyNext
      dsimp only
      split
      · exact ih
      · split
        · exact ih
        · rename_i index books hstart
          have hbooks : books = (s.books.startVerification _).2 := (congrArg Prod.snd hstart).symm
          have hstarted : Tells s { s with books } :=
            .quiet (.startVerification _) hbooks rfl fun i => by
              show (s.books.startVerification _).2.sync? i = _
              unfold MdBooks.startVerification
              split <;> rfl
          exact hstarted.trans (.stats rfl ⟨_, rfl⟩)

theorem tells_scheduleVerification (s : MdSession) (clock : Readings) (after : Instant) :
    Tells s (s.scheduleVerification clock after) := by
  have hstart : ∀ (s : MdSession) (every : Duration),
      Tells s (s.startVerification every clock after) := by
    intro s every
    unfold MdSession.startVerification
    split
    · exact .unseen (.refl s)
    · exact (tells_verifyNext s clock _).trans (.unseen ⟨rfl, rfl, _, rfl⟩)
  unfold MdSession.scheduleVerification
  split
  · exact .unseen (.refl s)
  · split
    · exact hstart s _
    · split
      · exact .unseen (.refl s)
      · exact (tells_abandonVerification s).trans (hstart _ _)

end Tells

/-- What the handler holds: the books, until they are taken down, and no others. -/
structure Views (table : InstrumentTable) (s : MdSession) (phase : Phase) : Prop where
  sound : s.books.Sound
  instruments : s.books.instruments = table
  shown : phase ≠ .down → ∀ i, held i s.handler = s.books.view i
  down : phase = .down → ∀ i, s.books.view i = .down
  known : ∀ call ∈ s.handler, ∀ i, call.bookOf? = some i → i.index < table.instruments.length

section Views

variable {table : InstrumentTable} {s s' : MdSession} {phase phase' : Phase}

theorem Views.tells (h : Views table s phase) (htells : Tells s s') (hphase : phase ≠ .down)
    (hphase' : phase' ≠ .down) : Views table s' phase' := by
  obtain ⟨calls, hshown⟩ := htells h.sound
  refine ⟨hshown.sound, hshown.instruments.trans h.instruments, fun _ i => ?_,
    fun hdown => absurd hdown hphase', fun call hcall i hi => ?_⟩
  · rw [hshown.handler, held_append, h.shown hphase i]
    exact hshown.view i
  · rw [hshown.handler] at hcall
    rcases List.mem_append.mp hcall with hcall | hcall
    · exact h.known call hcall i hi
    · rw [← h.instruments]
      exact hshown.known call hcall i hi

/-- A step that may come at any time. -/
theorem Views.unseen (h : Views table s phase) (hunseen : Unseen s s') : Views table s' phase := by
  obtain ⟨calls, hshown⟩ := Tells.unseen hunseen h.sound
  obtain ⟨hhandler, -, stats, hbooks⟩ := hunseen
  have hview : ∀ i, s'.books.view i = s.books.view i :=
    fun i => MdBooks.view_congr (by rw [hbooks]; rfl)
  refine ⟨hshown.sound, hshown.instruments.trans h.instruments, fun hphase i => ?_,
    fun hphase i => (hview i).trans (h.down hphase i), ?_⟩
  · rw [hhandler, hview, h.shown hphase i]
  · rw [hhandler]
    exact h.known

theorem Views.takeAllDown (h : Views table s phase) (clock : Readings) :
    Views table (s.takeAllDown clock) .down := by
  let reset : MdSession := { s.record .mdReset none [] clock with
    generation := s.generation + 1, books := s.books.resetAll }
  obtain ⟨calls, hshown⟩ :=
    Tells.unseen (unseen_dropVerification reset) (h.sound.run .resetAll)
  obtain ⟨hhandler, -, stats, hbooks⟩ := unseen_dropVerification reset
  refine ⟨hshown.sound, ?_, fun hne => absurd rfl hne, fun _ i => ?_, ?_⟩
  · refine hshown.instruments.trans ?_
    exact (MdBooks.run_sameTable s.books .resetAll).instruments.trans h.instruments
  · rw [show (s.takeAllDown clock).books = { s.books.resetAll with stats } from hbooks]
    show s.books.resetAll.view i = .down
    rw [MdBooks.view, MdBooks.isLive, MdBooks.book, MdBooks.sync?_resetAll]
    cases s.books.sync? i <;> rfl
  · rw [show (s.takeAllDown clock).handler = s.handler from hhandler]
    exact h.known

theorem Views.disconnected (h : Views table s .down) (debugText : MdStatus → Bytes)
    (reason : String) (clock : Readings) :
    Views table (s.status debugText (.disconnected reason) clock) .offline := by
  refine ⟨h.sound, h.instruments, fun _ i => ?_, fun hdown => (by cases hdown),
    fun call hcall i hi => ?_⟩
  · show held i (s.handler ++ [_]) = s.books.view i
    rw [held_append, h.down rfl i]
    rfl
  · rcases List.mem_append.mp hcall with hcall | hcall
    · exact h.known call hcall i hi
    · cases List.mem_singleton.mp hcall
      cases hi

/-- A step that may come keeps what the handler holds. -/
theorem Views.step (h : Views table s phase) (debugText : MdStatus → Bytes) {step : SessionStep}
    (hnext : phase.next step = some phase') : Views table (step.run debugText s) phase' := by
  cases step with
  | takeJob =>
      cases show phase = phase' by cases phase <;> exact Option.some.inj hnext
      exact h.unseen (unseen_takeJob s)
  | finishJob response fetchedAt =>
      cases show phase = phase' by cases phase <;> exact Option.some.inj hnext
      exact h.unseen (unseen_finishJob s response fetchedAt)
  | connecting clock =>
      cases phase <;> cases hnext
      exact h.tells (tells_status debugText s clock (fun _ _ => rfl) rfl) (by decide) (by decide)
  | connected clock =>
      cases phase <;> cases hnext
      exact (h.unseen (unseen_countConnection s)).tells
        (tells_status debugText _ clock (fun _ _ => rfl) rfl) (by decide) (by decide)
  | message bytes clock =>
      cases phase <;> cases hnext
      exact h.tells (tells_message s bytes clock) (by decide) (by decide)
  | collectSnapshot clock =>
      cases phase <;> cases hnext
      exact h.tells (tells_collectSnapshot debugText s clock) (by decide) (by decide)
  | requestSnapshots now =>
      cases phase <;> cases hnext
      exact h.unseen (unseen_requestSnapshots s now)
  | scheduleVerification clock after =>
      cases phase <;> cases hnext
      exact h.tells (tells_scheduleVerification s clock after) (by decide) (by decide)
  | takeAllDown clock =>
      cases phase <;> cases hnext
      · exact h.takeAllDown clock
      · exact h.takeAllDown clock
  | disconnected reason clock =>
      cases phase <;> cases hnext
      exact h.disconnected debugText reason clock

theorem Views.run (debugText : MdStatus → Bytes) (steps : List SessionStep) :
    ∀ {s : MdSession} {phase phase' : Phase}, Views table s phase →
      steps.foldlM Phase.next phase = some phase' → Views table (s.run debugText steps) phase' := by
  induction steps with
  | nil =>
      intro s phase phase' h hsteps
      cases hsteps
      exact h
  | cons step steps ih =>
      intro s phase phase' h hsteps
      rw [List.foldlM_cons] at hsteps
      obtain ⟨between, hnext, hrest⟩ := Option.bind_eq_some_iff.mp hsteps
      exact ih (h.step debugText hnext) hrest

theorem MdSession.Fresh.views {config : MdConfig} (h : MdSession.Fresh config table s) :
    Views table s .offline := by
  have hnew : ∀ {s : MdSession} {now : Instant},
      MdSession.new config table now = .ok s → Views table s .offline := by
    intro s now hs
    obtain ⟨books, hbooks, rfl⟩ := MdSession.new_eq hs
    obtain ⟨hsound, hdown⟩ := MdBooks.Sound.new hbooks
    obtain ⟨_, -, hinstruments⟩ := MdBooks.new_eq hbooks
    refine ⟨hsound, ?_, fun _ i => ?_, fun hdown => (by cases hdown), fun _ hcall => (by cases hcall)⟩
    · show books.instruments = table
      rw [hinstruments]
    · show View.down = books.view i
      cases hsync : books.sync? i with
      | none =>
          rw [MdBooks.view, MdBooks.isLive, MdBooks.book, hsync]
          rfl
      | some sync =>
          rw [MdBooks.view_of_sync hsync]
          exact (BookSync.view_of_down ((MdBooks.isLive_of_sync hsync).symm.trans (hdown i))).symm
  cases h with
  | new hs => exact hnew hs
  | withJournal clock hs =>
      have h := hnew hs
      exact ⟨h.sound, h.instruments, h.shown, h.down, h.known⟩

end Views

section Ran

variable {supplied : Supplied} {session : MdSession} {t : MdThread} {deeds : List Deed}
  {config : MdConfig} {instruments : InstrumentTable}

theorem MdThread.Ran.view (h : MdThread.Ran supplied session t deeds)
    (hfresh : MdSession.Fresh config instruments session) (i : InstrumentId) :
    t.session.books.view i = if t.place.isEnding then .down else held i t.session.handler := by
  obtain ⟨phase, hafter, hplace⟩ := h.ordered
  have hviews := hfresh.views.run supplied.debugText _ hafter
  rw [← h.session_eq] at hviews
  cases hending : t.place.isEnding with
  | true =>
      refine hviews.down ?_ i
      revert hplace hending
      cases t.place <;> simp [Place.In, Place.isEnding]
  | false =>
      refine (hviews.shown ?_ i).symm
      revert hplace hending
      cases t.place <;> simp +contextual [Place.In, Place.isEnding]
      rintro (rfl | rfl) <;> simp

/-- The handler is called about books of the table only. -/
theorem MdThread.Ran.known (h : MdThread.Ran supplied session t deeds)
    (hfresh : MdSession.Fresh config instruments session) :
    ∀ call ∈ t.session.handler, ∀ i, call.bookOf? = some i →
      i.index < instruments.instruments.length := by
  obtain ⟨phase, hafter, -⟩ := h.ordered
  have hviews := hfresh.views.run supplied.debugText _ hafter
  rw [← h.session_eq] at hviews
  exact hviews.known

end Ran

/-- **The handler holds the books.** A handler that keeps each book it is shown, and drops
one when it is told that its instrument is down, and all when it is told that the
connection is gone, holds on every run of the two threads exactly the books of the
session, level for level: none that is not live, and none of an earlier update. Only
between the end of a connection and the call that reports it does it hold books of the
past, and the session has none then. -/
theorem handler_holds_the_books (supplied : Supplied) (run : RunConfig) (url : Url)
    (now : Instant) {config : MdConfig} {instruments : InstrumentTable} {session : MdSession}
    (hfresh : MdSession.Fresh config instruments session) (actions : List Action) :
    let t := ((MdThread.start run url session now).runs supplied actions).1
    ∀ i, ⟨t.session.books.isLive i, t.session.books.book i⟩ =
      if t.place.isEnding then View.down else held i t.session.handler :=
  (MdThread.Ran.runs supplied run url session now actions).view hfresh

/-- The handler and the session hold the same book while it is live; behind its end the
session has none and the handler still holds it, until it is told. -/
theorem sample_handler_holds_the_books :
    held ⟨0⟩ liveCalls = ⟨true, some liveBook⟩ ∧
    (sampleRun liveActions).1.session.handler = liveCalls ∧
    (sampleRun liveActions).1.session.books.view ⟨0⟩ = ⟨true, some liveBook⟩ ∧
    (sampleRun (liveActions ++ endActions)).1.session.handler = liveCalls ∧
    (sampleRun (liveActions ++ endActions)).1.session.books.view ⟨0⟩ = .down ∧
    held ⟨0⟩ (sampleRun (liveActions ++ endedActions)).1.session.handler = .down ∧
    (sampleRun (liveActions ++ endedActions)).1.session.books.view ⟨0⟩ = .down := by
  obtain ⟨hlive, hstreaming, -, -, hkept, hending, hended, htold, -⟩ := sampleRun_handler
  have hview : ∀ actions, (sampleRun actions).1.session.books.view ⟨0⟩ =
      if (sampleRun actions).1.place.isEnding then .down
      else held ⟨0⟩ (sampleRun actions).1.session.handler := fun actions =>
    handler_holds_the_books sampleSupplied sampleRunConfig sampleUrl 0 btcSession_fresh actions ⟨0⟩
  have hgone : held ⟨0⟩ (liveCalls ++ [.onStatus (.disconnected "stopped")]) = .down := rfl
  refine ⟨rfl, hlive, ?_, hkept, ?_, ?_, ?_⟩
  · rw [hview, hlive, Place.not_isEnding hstreaming]
    rfl
  · rw [hview, hending]
    rfl
  · rw [hended, hgone]
  · rw [hview, htold, hended, hgone]
    rfl

end Bowst.Venue
