/-
Bowst.Venue.MdThreadTheorems — runs of the market-data thread.

  §1 Session — the session under the thread is a run of its steps, in an order that
               `Phase` describes.
  §2 Handler — the calls of the handler follow a protocol, and no book is live outside
               a connection.
-/
import Bowst.Venue.MdThread
import Bowst.Venue.ReplayTheorems
import Bowst.Venue.WsClientTheorems

namespace Bowst.Venue

open Bowst.Core Bowst.Lib

/-! ## §1 Session -/

def Deed.step? : Deed → Option SessionStep
  | .session step => some step
  | _ => none

/-- The steps of the session among deeds. -/
def stepsOf (deeds : List Deed) : List SessionStep := deeds.filterMap Deed.step?

@[simp] theorem stepsOf_append (deeds deeds' : List Deed) :
    stepsOf (deeds ++ deeds') = stepsOf deeds ++ stepsOf deeds' := List.filterMap_append

/-- What the steps of a session do to its connection. -/
inductive Phase where
  | offline
  | connecting
  | connected
  | down
  deriving DecidableEq, Repr

/-- Which step may come in a phase, and the phase behind it. -/
def Phase.next : Phase → SessionStep → Option Phase
  | phase, .takeJob | phase, .finishJob _ _ => some phase
  | .offline, .connecting _ => some .connecting
  | .connecting, .connected _ => some .connected
  | .connecting, .takeAllDown _ | .connected, .takeAllDown _ => some .down
  | .down, .disconnected _ _ => some .offline
  | .connected, .message _ _ | .connected, .collectSnapshot _ | .connected, .requestSnapshots _
  | .connected, .scheduleVerification _ _ => some .connected
  | _, _ => none

/-- The phase behind steps, if each may come where it does. -/
def Phase.after (steps : List SessionStep) : Option Phase := steps.foldlM Phase.next .offline

/-- The phases that a place of the thread may be in. -/
def Place.In : Place → Phase → Prop
  | .connecting, phase | .waiting, phase | .stopped, phase => phase = .offline
  | .opening, phase => phase = .connecting
  | .streaming _ _, phase | .leaving _ _, phase => phase = .connected
  | .down _, phase => phase = .connecting ∨ phase = .connected
  | .disconnected _, phase => phase = .down

namespace MdThread

variable (supplied : Supplied)

/-- The session moves by the session steps among deeds, each of which may come. -/
def Moves (t t' : MdThread) (deeds : List Deed) : Prop :=
  t'.session = t.session.run supplied.debugText (stepsOf deeds) ∧
    ∀ phase, t.place.In phase →
      ∃ phase', (stepsOf deeds).foldlM Phase.next phase = some phase' ∧ t'.place.In phase'

/-- Deeds that are no steps, and a place that no step leads away from. -/
theorem moves_go (t : MdThread) {place : Place} {deeds : List Deed} (hsteps : stepsOf deeds = [])
    (hplace : ∀ phase, t.place.In phase → place.In phase) :
    t.Moves supplied (t.go place) deeds := by
  refine ⟨by rw [hsteps]; rfl, fun phase hphase => ⟨phase, by rw [hsteps]; rfl, hplace phase hphase⟩⟩

section Streaming

variable {t : MdThread} {c : Connection} {point : Point} {m : Moment}

theorem onEvent_moves (hplace : t.place = .streaming c point) (c' : Connection) (event : WsEvent)
    (m : Moment) :
    t.Moves supplied (t.onEvent c' event m).1 (t.onEvent c' event m).2 := by
  have hquiet : ∀ (place : Place) (deeds : List Deed), stepsOf deeds = [] → place.In .connected →
      t.Moves supplied (t.go place) deeds := by
    intro place deeds hsteps hin
    refine t.moves_go supplied hsteps fun phase hphase => ?_
    rw [hplace] at hphase
    exact hphase ▸ hin
  have hmessage : ∀ bytes, t.Moves supplied (t.message c' bytes m)
      [.event event, .session (.message bytes m.clock), .timed m.nanos] := by
    intro bytes
    refine ⟨rfl, fun phase hphase => ⟨.connected, ?_, ?_⟩⟩
    · rw [hplace] at hphase
      rw [hphase]
      rfl
    · unfold message
      dsimp only
      split <;> rfl
  cases event with
  | text bytes => exact hmessage bytes
  | binary bytes => exact hmessage bytes
  | ping payload =>
      simp only [onEvent]
      split <;> exact hquiet _ _ rfl rfl
  | pong payload => exact hquiet _ _ rfl rfl
  | close code reason => exact hquiet _ _ rfl rfl

theorem check_moves (hplace : t.place = .streaming c point) :
    t.Moves supplied (t.check supplied c m) [] := by
  have hquiet : ∀ place : Place, place.In .connected → t.Moves supplied (t.go place) [] := by
    intro place hin
    refine t.moves_go supplied rfl fun phase hphase => ?_
    rw [hplace] at hphase
    exact hphase ▸ hin
  unfold check
  split_ifs
  · exact hquiet _ rfl
  · exact hquiet _ rfl
  · split
    · exact hquiet _ rfl
    · split_ifs <;> exact hquiet _ rfl

/-- A step of a session on a connection, behind which the thread goes on streaming. -/
theorem moves_step (hplace : t.place = .streaming c point) {t' : MdThread} {point' : Point}
    {step : SessionStep} (hstep : Phase.next .connected step = some .connected)
    (hsession : t'.session = step.run supplied.debugText t.session)
    (hplace' : t'.place = .streaming c point') : t.Moves supplied t' [.session step] := by
  refine ⟨hsession, fun phase hphase => ⟨.connected, ?_, ?_⟩⟩
  · rw [hplace] at hphase
    rw [hphase]
    exact congrArg (Option.bind · _) hstep
  · rw [hplace']
    rfl

theorem stream_moves (hplace : t.place = .streaming c point) :
    t.Moves supplied (t.stream supplied c m point).1 (t.stream supplied c m point).2 := by
  have hgo : ∀ (place : Place) (deeds : List Deed), stepsOf deeds = [] → place.In .connected →
      t.Moves supplied (t.go place) deeds := by
    intro place deeds hsteps hin
    refine t.moves_go supplied hsteps fun phase hphase => ?_
    rw [hplace] at hphase
    exact hphase ▸ hin
  cases point with
  | top => simp only [stream]; split_ifs <;> exact hgo _ _ rfl rfl
  | drain =>
      simp only [stream, drain]
      split
      · exact hgo _ _ rfl rfl
      · exact hgo _ _ rfl rfl
      · exact onEvent_moves supplied hplace _ _ m
  | collect =>
      simp only [stream, collect]
      split_ifs
      · exact hgo _ _ rfl rfl
      · exact moves_step supplied hplace rfl rfl hplace
  | request => exact moves_step supplied hplace rfl rfl rfl
  | schedule => exact moves_step supplied hplace rfl rfl rfl
  | report =>
      simp only [stream, maybeReport]
      split_ifs
      · exact hgo _ _ rfl rfl
      · refine ⟨rfl, fun phase hphase => ⟨phase, rfl, ?_⟩⟩
        rw [hplace] at hphase
        exact hphase
  | check => exact check_moves supplied hplace

end Streaming

theorem run_moves (t : MdThread) (m : Moment) :
    t.Moves supplied (t.run supplied m).1 (t.run supplied m).2 := by
  cases hplace : t.place with
  | connecting =>
      simp only [run, hplace]
      split_ifs
      · exact t.moves_go supplied rfl fun phase hphase => by rwa [hplace] at hphase
      · refine ⟨rfl, fun phase hphase => ⟨.connecting, ?_, rfl⟩⟩
        rw [hplace] at hphase
        rw [hphase]
        rfl
  | opening =>
      simp only [run, hplace, connect]
      split
      · refine t.moves_go supplied rfl fun phase hphase => ?_
        rw [hplace] at hphase
        exact .inl hphase
      · refine ⟨rfl, fun phase hphase => ⟨.connected, ?_, rfl⟩⟩
        rw [hplace] at hphase
        rw [hphase]
        rfl
  | streaming c point =>
      simp only [run, hplace]
      exact stream_moves supplied hplace
  | leaving c reason =>
      simp only [run, hplace, leave]
      refine ⟨rfl, fun phase hphase => ⟨phase, rfl, ?_⟩⟩
      rw [hplace] at hphase
      exact .inr hphase
  | down reason =>
      simp only [run, hplace]
      refine ⟨rfl, fun phase hphase => ⟨.down, ?_, rfl⟩⟩
      rw [hplace] at hphase
      rcases hphase with rfl | rfl <;> rfl
  | disconnected reason =>
      simp only [run, hplace]
      refine ⟨rfl, fun phase hphase => ⟨.offline, ?_, rfl⟩⟩
      rw [hplace] at hphase
      rw [hphase]
      rfl
  | waiting =>
      simp only [run, hplace]
      split_ifs
      · exact t.moves_go supplied rfl fun phase hphase => by rwa [hplace] at hphase
      · refine ⟨rfl, fun phase hphase => ⟨phase, rfl, ?_⟩⟩
        rwa [hplace] at hphase
  | stopped =>
      simp only [run, hplace]
      exact ⟨rfl, fun phase hphase => ⟨phase, rfl, hphase⟩⟩

/-- Either thread moves the session by its steps only. -/
theorem act_moves (t : MdThread) (a : Action) :
    t.Moves supplied (t.act supplied a).1 (t.act supplied a).2 := by
  cases a with
  | act m => exact t.run_moves supplied m
  | takeJob => exact ⟨rfl, fun phase hphase => ⟨phase, by cases phase <;> rfl, hphase⟩⟩
  | finishJob response fetchedAt =>
      exact ⟨rfl, fun phase hphase => ⟨phase, by cases phase <;> rfl, hphase⟩⟩

end MdThread

/-- A run of the two threads. -/
def MdThread.runs (supplied : Supplied) (t : MdThread) (actions : List Action) :
    MdThread × List Deed :=
  runMachine (MdThread.act supplied) t actions

/-- Where the deeds of a run have taken the session, and in which order its steps came. -/
structure MdThread.Ran (supplied : Supplied) (session : MdSession) (t : MdThread)
    (deeds : List Deed) : Prop where
  session_eq : t.session = session.run supplied.debugText (stepsOf deeds)
  ordered : ∃ phase, Phase.after (stepsOf deeds) = some phase ∧ t.place.In phase

theorem MdThread.Ran.act {supplied : Supplied} {session : MdSession} (t : MdThread)
    (deeds : List Deed) (a : Action) (h : Ran supplied session t deeds) :
    Ran supplied session (t.act supplied a).1 (deeds ++ (t.act supplied a).2) := by
  obtain ⟨hsession, phase, hafter, hphase⟩ := h
  obtain ⟨hmove, hnext⟩ := t.act_moves supplied a
  obtain ⟨phase', hafter', hphase'⟩ := hnext phase hphase
  refine ⟨?_, phase', ?_, hphase'⟩
  · simp only [hmove, hsession, stepsOf_append, MdSession.run, List.foldl_append]
  · rw [stepsOf_append, Phase.after, List.foldlM_append]
    rw [Phase.after] at hafter
    rw [hafter]
    exact hafter'

theorem MdThread.Ran.runs (supplied : Supplied) (config : RunConfig) (url : Url)
    (session : MdSession) (now : Instant) (actions : List Action) :
    Ran supplied session ((start config url session now).runs supplied actions).1
      ((start config url session now).runs supplied actions).2 := by
  have hstart : Ran supplied session (start config url session now) [] :=
    ⟨rfl, .offline, rfl, rfl⟩
  exact runMachine_induction Ran.act actions hstart

/-- **The thread runs the session.** Over every run of the market-data thread, with the
snapshot thread acting anywhere in between, whatever the network, the clocks and the stop
flag do: the session is where its steps lead, and these come in the order of `Phase`:
`connecting`, then perhaps `connected` and what is done on a connection, then
`takeAllDown` and `disconnected`. -/
theorem thread_runs_session (supplied : Supplied) (config : RunConfig) (url : Url)
    (session : MdSession) (now : Instant) (actions : List Action) :
    let (t, deeds) := (MdThread.start config url session now).runs supplied actions
    t.session = session.run supplied.debugText (stepsOf deeds) ∧
      ∃ phase, Phase.after (stepsOf deeds) = some phase ∧ t.place.In phase := by
  have hran := MdThread.Ran.runs supplied config url session now actions
  exact ⟨hran.session_eq, hran.ordered⟩

/-! ## §2 Handler -/

/-- The calls that are about the connection. -/
def HandlerCall.isSessionCall : HandlerCall → Bool
  | .onStatus .connecting | .onStatus .connected | .onStatus (.disconnected _) => true
  | _ => false

/-- What a handler has heard of the connection. -/
inductive Heard where
  | offline
  | connecting
  | connected
  deriving DecidableEq, Repr

/-- Which call may come, and what the handler has heard behind it. What is not about the
connection comes on one. -/
def Heard.next : Heard → HandlerCall → Option Heard
  | .offline, .onStatus .connecting => some .connecting
  | .connecting, .onStatus .connected => some .connected
  | .connecting, .onStatus (.disconnected _) | .connected, .onStatus (.disconnected _) =>
      some .offline
  | .connected, call => if call.isSessionCall then none else some .connected
  | _, _ => none

/-- What a handler has heard, if each call may come where it does. -/
def Heard.after (calls : List HandlerCall) : Option Heard := calls.foldlM Heard.next .offline

theorem Heard.after_append (calls calls' : List HandlerCall) :
    Heard.after (calls ++ calls') =
      (Heard.after calls).bind fun heard => calls'.foldlM Heard.next heard :=
  List.foldlM_append

/-- A session that only told its handler what comes on a connection. -/
def Speaks (s s' : MdSession) : Prop :=
  ∃ calls, s'.handler = s.handler ++ calls ∧ ∀ call ∈ calls, call.isSessionCall = false

section Speaks

variable {s s' s'' : MdSession}

theorem Speaks.of_handler (h : s'.handler = s.handler) : Speaks s s' :=
  ⟨[], by rw [h, List.append_nil], by simp⟩

theorem Speaks.trans (h : Speaks s s') (h' : Speaks s' s'') : Speaks s s'' := by
  obtain ⟨calls, hcalls, hquiet⟩ := h
  obtain ⟨calls', hcalls', hquiet'⟩ := h'
  refine ⟨calls ++ calls', by rw [hcalls', hcalls, List.append_assoc], fun call hcall => ?_⟩
  rcases List.mem_append.mp hcall with hmem | hmem
  · exact hquiet call hmem
  · exact hquiet' call hmem

/-- Calls about books come on a connection. -/
theorem speaks_tell (s : MdSession) {calls : List HandlerCall}
    (h : calls.filter HandlerCall.isBookCall = calls) : Speaks s (s.tell calls) := by
  refine ⟨calls, rfl, fun call hcall => ?_⟩
  rw [← h] at hcall
  have hbook := (List.mem_filter.mp hcall).2
  revert hbook
  cases call with
  | onBook => simp [HandlerCall.isSessionCall]
  | onStatus status => cases status <;> simp [HandlerCall.isSessionCall, HandlerCall.isBookCall]

theorem speaks_message (s : MdSession) (bytes : Bytes) (clock : Readings) :
    Speaks s (s.message bytes clock) := by
  let applied : MdSession :=
    { s.record .mdMessage none [bytes] clock with books := (s.books.apply bytes).2 }
  have happlied : Speaks s applied := .of_handler rfl
  show Speaks s (applied.afterMessage (s.books.apply bytes).1)
  cases (s.books.apply bytes).1 with
  | error err => exact happlied
  | ok what =>
      refine happlied.trans (Speaks.trans (speaks_tell applied ?_)
        (.of_handler (unseen_afterApply applied what).handler))
      exact report_isBookCall _ what

theorem speaks_useSnapshot (s : MdSession) (id : InstrumentId) (snapshot : OwnedSnapshot)
    (clock : Readings) : Speaks s (s.useSnapshot id snapshot clock) := by
  unfold MdSession.useSnapshot
  dsimp only
  refine Speaks.trans (.of_handler rfl) (Speaks.trans (speaks_tell _ ?_)
    (.of_handler (unseen_setState _ id _).handler))
  exact onSnapshot_isBookCall ..

theorem speaks_useVerificationSnapshot (s : MdSession) (id : InstrumentId)
    (snapshot : OwnedSnapshot) (clock : Readings) :
    Speaks s (s.useVerificationSnapshot id snapshot clock) := by
  unfold MdSession.useVerificationSnapshot
  dsimp only
  refine Speaks.trans (.of_handler rfl) (Speaks.trans (speaks_tell _ ?_)
    (.of_handler (unseen_afterVerdict _ id _).handler))
  exact onVerificationSnapshot_isBookCall ..

theorem speaks_collectSnapshot (debugText : MdStatus → Bytes) (s : MdSession) (clock : Readings) :
    Speaks s (s.collectSnapshot debugText clock) := by
  unfold MdSession.collectSnapshot
  split
  · exact .of_handler rfl
  · rename_i result results _
    dsimp only
    have hpop : Speaks s { s with results } := .of_handler rfl
    split
    · exact hpop
    · split
      · unfold MdSession.applySnapshot
        split
        · rename_i failure _
          refine hpop.trans ⟨[.onStatus (.snapshotFailed result.instrument failure.reason)], rfl, ?_⟩
          simp [HandlerCall.isSessionCall]
        · exact hpop.trans (speaks_useSnapshot _ _ _ clock)
      · unfold MdSession.applyVerificationSnapshot
        split
        · exact hpop
        · split
          · exact hpop
          · split
            · exact .of_handler rfl
            · exact hpop.trans (speaks_useVerificationSnapshot _ _ _ clock)

theorem handler_verifyNext (s : MdSession) (clock : Readings) (steps : List Nat) :
    (s.verifyNext clock steps).handler = s.handler := by
  induction steps with
  | nil => rfl
  | cons step steps ih =>
      unfold MdSession.verifyNext
      dsimp only
      split
      · exact ih
      · split
        · exact ih
        · rfl

theorem handler_scheduleVerification (s : MdSession) (clock : Readings) (after : Instant) :
    (s.scheduleVerification clock after).handler = s.handler := by
  have hstart : ∀ (s : MdSession) (every : Duration),
      (s.startVerification every clock after).handler = s.handler := by
    intro s every
    unfold MdSession.startVerification
    split
    · rfl
    · exact handler_verifyNext s clock _
  unfold MdSession.scheduleVerification
  split
  · rfl
  · split
    · exact hstart s _
    · split
      · rfl
      · exact hstart s.abandonVerification _

end Speaks

/-- What a handler has heard in a phase. -/
def Phase.Hears : Phase → Heard → Prop
  | .offline, heard => heard = .offline
  | .connecting, heard => heard = .connecting
  | .connected, heard => heard = .connected
  | .down, heard => heard = .connecting ∨ heard = .connected

/-- The handler of a session was told in order, and no book is live outside a connection. -/
structure Protocol (s : MdSession) (phase : Phase) : Prop where
  heard : ∃ heard, Heard.after s.handler = some heard ∧ phase.Hears heard
  down : phase ≠ .connected → ∀ i, s.books.isLive i = false

section Protocol

variable {s s' : MdSession} {phase phase' : Phase}

theorem Protocol.speaks (h : Protocol s .connected) (hspeaks : Speaks s s') :
    Protocol s' .connected := by
  obtain ⟨calls, hcalls, hquiet⟩ := hspeaks
  obtain ⟨heard, hafter, rfl⟩ := h.heard
  have hstay : ∀ calls : List HandlerCall, (∀ call ∈ calls, call.isSessionCall = false) →
      calls.foldlM Heard.next .connected = some .connected := by
    intro calls
    induction calls with
    | nil => intro _; rfl
    | cons call calls ih =>
        intro hquiet
        have hcall := hquiet call (List.mem_cons_self ..)
        have hnext : Heard.next .connected call = some .connected := by
          cases call with
          | onBook => rfl
          | onStatus status => cases status <;> simp_all [Heard.next, HandlerCall.isSessionCall]
        rw [List.foldlM_cons, hnext]
        exact ih fun call hmem => hquiet call (List.mem_cons_of_mem _ hmem)
  refine ⟨⟨.connected, ?_, rfl⟩, fun hne => absurd rfl hne⟩
  rw [hcalls, Heard.after_append, hafter]
  exact hstay calls hquiet

/-- A step that neither tells the handler anything nor touches a book. -/
theorem Protocol.unseen (h : Protocol s phase) (hunseen : Unseen s s') : Protocol s' phase := by
  obtain ⟨hhandler, -, stats, hbooks⟩ := hunseen
  refine ⟨by rw [hhandler]; exact h.heard, fun hphase i => ?_⟩
  rw [hbooks]
  exact h.down hphase i

/-- A status of the connection, told in its turn. -/
theorem Protocol.status (h : Protocol s phase) (debugText : MdStatus → Bytes) {status : MdStatus}
    (clock : Readings)
    (hnext : ∀ heard, phase.Hears heard →
      ∃ heard', Heard.next heard (.onStatus status) = some heard' ∧ phase'.Hears heard')
    (hphase : phase' = .connected ∨ phase ≠ .connected) :
    Protocol (s.status debugText status clock) phase' := by
  obtain ⟨heard, hafter, hhears⟩ := h.heard
  obtain ⟨heard', hheard', hhears'⟩ := hnext heard hhears
  refine ⟨⟨heard', ?_, hhears'⟩, fun hne i => ?_⟩
  · show Heard.after (s.handler ++ [.onStatus status]) = some heard'
    rw [Heard.after_append, hafter]
    simpa using hheard'
  · exact h.down (hphase.resolve_left hne) i

theorem Protocol.takeAllDown (h : Protocol s phase)
    (hphase : phase = .connecting ∨ phase = .connected) (clock : Readings) :
    Protocol (s.takeAllDown clock) .down := by
  have hdropped := unseen_dropVerification { s.record .mdReset none [] clock with
    generation := s.generation + 1, books := s.books.resetAll }
  obtain ⟨hhandler, -, stats, hbooks⟩ := hdropped
  obtain ⟨heard, hafter, hhears⟩ := h.heard
  refine ⟨⟨heard, ?_, ?_⟩, fun _ i => ?_⟩
  · rw [show (s.takeAllDown clock).handler = s.handler from hhandler]
    exact hafter
  · rcases hphase with rfl | rfl
    · exact .inl hhears
    · exact .inr hhears
  · rw [show (s.takeAllDown clock).books = { s.books.resetAll with stats } from hbooks]
    show s.books.resetAll.isLive i = false
    rw [MdBooks.isLive, MdBooks.sync?_resetAll]
    cases s.books.sync? i <;> rfl

/-- A step that may come keeps the protocol. -/
theorem Protocol.step (h : Protocol s phase) (debugText : MdStatus → Bytes) {step : SessionStep}
    (hnext : phase.next step = some phase') : Protocol (step.run debugText s) phase' := by
  cases step with
  | takeJob =>
      cases show phase = phase' by cases phase <;> exact Option.some.inj hnext
      exact h.unseen (unseen_takeJob s)
  | finishJob response fetchedAt =>
      cases show phase = phase' by cases phase <;> exact Option.some.inj hnext
      exact h.unseen (unseen_finishJob s response fetchedAt)
  | connecting clock =>
      cases phase <;> cases hnext
      exact h.status debugText clock (fun _ hhears => ⟨.connecting, by rw [hhears]; rfl, rfl⟩)
        (.inr (by decide))
  | connected clock =>
      cases phase <;> cases hnext
      exact (h.unseen (unseen_countConnection s)).status debugText clock
        (fun _ hhears => ⟨.connected, by rw [hhears]; rfl, rfl⟩) (.inl rfl)
  | message bytes clock =>
      cases phase <;> cases hnext
      exact h.speaks (speaks_message s bytes clock)
  | collectSnapshot clock =>
      cases phase <;> cases hnext
      exact h.speaks (speaks_collectSnapshot debugText s clock)
  | requestSnapshots now =>
      cases phase <;> cases hnext
      exact h.unseen (unseen_requestSnapshots s now)
  | scheduleVerification clock after =>
      cases phase <;> cases hnext
      exact h.speaks (.of_handler (handler_scheduleVerification s clock after))
  | takeAllDown clock =>
      cases phase <;> cases hnext
      · exact h.takeAllDown (.inl rfl) clock
      · exact h.takeAllDown (.inr rfl) clock
  | disconnected reason clock =>
      cases phase <;> cases hnext
      refine h.status debugText clock (fun heard hhears => ⟨.offline, ?_, rfl⟩) (.inr (by decide))
      rcases hhears with rfl | rfl <;> rfl

theorem Protocol.run (debugText : MdStatus → Bytes) (steps : List SessionStep) :
    ∀ {s : MdSession} {phase phase' : Phase}, Protocol s phase →
      steps.foldlM Phase.next phase = some phase' → Protocol (s.run debugText steps) phase' := by
  induction steps with
  | nil =>
      intro s phase phase' h hsteps
      cases hsteps
      exact h
  | cons step steps ih =>
      intro s phase phase' h hsteps
      rw [List.foldlM_cons] at hsteps
      obtain ⟨between, hnext, hrest⟩ := Option.bind_eq_some_iff.mp hsteps
      exact ih (h.step debugText hnext) hrest

theorem MdSession.Fresh.protocol {config : MdConfig} {instruments : InstrumentTable}
    (h : MdSession.Fresh config instruments s) : Protocol s .offline := by
  have hnew : ∀ {s : MdSession} {now : Instant},
      MdSession.new config instruments now = .ok s → Protocol s .offline := by
    intro s now hs
    obtain ⟨books, hbooks, rfl⟩ := MdSession.new_eq hs
    exact ⟨⟨.offline, rfl, rfl⟩, fun _ => (MdBooks.Sound.new hbooks).2⟩
  cases h with
  | new hs => exact hnew hs
  | withJournal clock hs => exact ⟨(hnew hs).heard, (hnew hs).down⟩

end Protocol

/-- **The handler hears a protocol.** On every run of the thread the handler is told
`Connecting`, then `Connected` or `Disconnected`, and every book, every status of an
instrument and every failed snapshot between `Connected` and `Disconnected`; and unless
`Connected` was told last of the three, no book is live. -/
theorem handler_hears_protocol (supplied : Supplied) (run : RunConfig) (url : Url) (now : Instant)
    {config : MdConfig} {instruments : InstrumentTable} {session : MdSession}
    (hfresh : MdSession.Fresh config instruments session) (actions : List Action) :
    let t := ((MdThread.start run url session now).runs supplied actions).1
    ∃ heard, Heard.after t.session.handler = some heard ∧
      (heard ≠ .connected → ∀ i, t.session.books.isLive i = false) := by
  have hran := MdThread.Ran.runs supplied run url session now actions
  obtain ⟨phase, hafter, -⟩ := hran.ordered
  have hprotocol := hfresh.protocol.run supplied.debugText _ hafter
  rw [← hran.session_eq] at hprotocol
  obtain ⟨heard, hheard, hhears⟩ := hprotocol.heard
  refine ⟨heard, hheard, fun hne => hprotocol.down fun hphase => hne ?_⟩
  rw [hphase] at hhears
  exact hhears

/-! ### A run -/

/-- Whether the thread is in the loop of `stream`. -/
def Place.isStreaming : Place → Bool
  | .streaming _ _ => true
  | _ => false

/-- The books are down, and the handler was not told yet. -/
def Place.isEnding : Place → Bool
  | .disconnected _ => true
  | _ => false

theorem Place.not_isEnding {place : Place} (h : place.isStreaming = true) : place.isEnding = false := by
  cases place with
  | streaming => rfl
  | _ => cases h

def sampleSupplied : Supplied := ⟨fun _ => sampleDigest, fun _ => [], fun _ => ""⟩

def sampleRunConfig : RunConfig where
  reader := sampleConfig
  staleAfter := 60
  maxConnectionAge := 1000
  reconnectInitial := 1
  reconnectMax := 30
  healthyAfter := 60
  reportEvery := 10
  initial_le := by decide
  max_le := by decide

/-- A frame of a server with a short payload. -/
def serverFrame (opcode : Opcode) (payload : Bytes) : Bytes :=
  (finBit ||| opcode.bits) :: UInt8.ofNat payload.length :: payload

/-- A connection on which a message comes with the response, and a ping after it. -/
def streamOpening : Opening :=
  { sampleOpening with
    socket := [
      .bytes (ascii "HTTP/1.1 101 Switching Protocols\r\nupgrade: WebSocket\r\nConnection: Upgrade\r\n" ++
        ascii "Sec-WebSocket-Accept: s3pPLMBiTxaQ9kYGzzhZRbK+xOo=\r\n\r\n" ++
          serverFrame .text (rangeMessage 11 12 100 2)),
      .bytes (serverFrame .ping [104, 105])] }

/-- A moment at which the clocks stand still and a connection can be opened. -/
def sampleMoment : Moment where
  stop := false
  clock := stopped
  after := 0
  nanos := 0
  opening := streamOpening
  sending := ⟨.ok (.replicate 4 0), [.wrote 8], [.wrote 0]⟩
  random := 0

/-- A moment at which a report is due. -/
def laterMoment : Moment := { sampleMoment with clock := ⟨10, 10, ⟨10⟩⟩, after := 10 }

/-- A run to a live book: the message is kept, the snapshot thread works, the ping is
answered, the snapshot and the message make the book, and a report is sent. -/
def liveActions : List Action :=
  List.replicate 7 (.act sampleMoment) ++ [.takeJob, .finishJob (.ok (depthBody 10 1)) ⟨0⟩] ++
    List.replicate 10 (.act sampleMoment) ++ [.act laterMoment]

/-- The thread is told to stop, and takes its books down. -/
def endActions : List Action :=
  .act laterMoment :: List.replicate 3 (.act { laterMoment with stop := true })

/-- And tells the handler. -/
def endedActions : List Action := endActions ++ [.act laterMoment]

def sampleRun (actions : List Action) : MdThread × List Deed :=
  (MdThread.start sampleRunConfig sampleUrl btcSession 0).runs sampleSupplied actions

def liveBook : L2.Book := ⟨⟨.buy, [⟨100, 2⟩], 4, none⟩, ⟨.sell, [⟨101, 1⟩], 4, none⟩⟩

/-- What the handler is told on the way to the live book. -/
def liveCalls : List HandlerCall :=
  [.onStatus .connecting, .onStatus .connected, .onStatus (.instrumentLive ⟨0⟩),
    .onBook ⟨0⟩ liveBook ⟨0⟩]

def liveStats : MdStats := { MdStats.zero with
  messages := 1
  connections := 1
  snapshotsRequested := 1
  snapshotsApplied := 1 }

/-- What is behind the run with the live book, behind its end, and once that was told. -/
theorem sampleRun_handler :
    (sampleRun liveActions).1.session.handler = liveCalls ∧
    (sampleRun liveActions).1.place.isStreaming = true ∧
    (sampleRun liveActions).1.session.books.isLive ⟨0⟩ = true ∧
    (sampleRun liveActions).1.reports.map MdReport.stats = [liveStats] ∧
    (sampleRun (liveActions ++ endActions)).1.session.handler = liveCalls ∧
    (sampleRun (liveActions ++ endActions)).1.place.isEnding = true ∧
    (sampleRun (liveActions ++ endedActions)).1.session.handler =
      liveCalls ++ [.onStatus (.disconnected "stopped")] ∧
    (sampleRun (liveActions ++ endedActions)).1.place.isEnding = false ∧
    (sampleRun (liveActions ++ endedActions)).1.session.books.stats = liveStats := by
  decide +kernel

/-- The handler has heard that the connection stands while a book is live, and that it is
gone behind the end, where none is. -/
theorem sample_handler_hears_protocol :
    (sampleRun liveActions).1.session.handler = liveCalls ∧
    (sampleRun liveActions).1.session.books.isLive ⟨0⟩ = true ∧
    Heard.after liveCalls = some .connected ∧
    (sampleRun (liveActions ++ endedActions)).1.session.handler =
      liveCalls ++ [.onStatus (.disconnected "stopped")] ∧
    ∀ i, (sampleRun (liveActions ++ endedActions)).1.session.books.isLive i = false := by
  obtain ⟨hhandler, -, hlive, -, -, -, hended, -⟩ := sampleRun_handler
  obtain ⟨heard, hheard, hdown⟩ := handler_hears_protocol sampleSupplied sampleRunConfig sampleUrl 0
    btcSession_fresh (liveActions ++ endedActions)
  have hgone : Heard.after (liveCalls ++ [.onStatus (.disconnected "stopped")]) = some .offline :=
    rfl
  have hheard' : Heard.after (sampleRun (liveActions ++ endedActions)).1.session.handler = some heard :=
    hheard
  rw [hended, hgone] at hheard'
  cases hheard'
  exact ⟨hhandler, hlive, rfl, hended, hdown (by decide)⟩

end Bowst.Venue
