/-
Bowst.Venue.MdStreamTheorems — what the market-data thread does with its connection.

The deeds of a run since the last connection was opened are compared with the stream
behind its upgrade response: what the decoder finds there is what the books are handed,
and what is on the wire answers the pings among it.

  §1 Pings      — every ping that the decoder finds fits in a pong.
  §2 Connection — the deeds on the last connection.
  §3 Stream     — what one action keeps, and a run.
  §4 Telemetry  — reports share out the time that messages took.
-/
import Bowst.Venue.MdThreadTheorems

namespace Bowst.Venue

open Bowst.Core Bowst.Lib Bowst.Telemetry

/-! ## §1 Pings -/

/-- A control frame that the parser accepts is short. -/
theorem parseServerHeader_control {buf : Bytes} {maxPayload : Nat} {header : FrameHeader}
    (h : parseServerHeader buf maxPayload = .ok (some header))
    (hcontrol : header.opcode.isControl) : header.payloadLen ≤ maxControlPayload := by
  match buf, h with
  | [], h => cases h
  | [_], h => cases h
  | b0 :: b1 :: rest, h =>
      unfold parseServerHeader at h
      dsimp only at h
      by_cases hreserved : b0 &&& 0x70 ≠ 0
      · rw [if_pos hreserved] at h
        cases h
      rw [if_neg hreserved] at h
      obtain ⟨opcode, -, h⟩ := except_bind_eq_ok.mp h
      by_cases hmask : b1 &&& 0x80 ≠ 0
      · rw [if_pos hmask] at h
        cases h
      rw [if_neg hmask] at h
      obtain ⟨length, -, h⟩ := except_bind_eq_ok.mp h
      cases length with
      | none => cases h
      | some length =>
          obtain ⟨len, headerLen⟩ := length
          dsimp only at h
          split_ifs at h with hbad hmax
          cases h
          by_contra hlong
          exact hbad ⟨hcontrol, .inr (Nat.lt_of_not_le hlong)⟩

def WsEvent.data? : WsEvent → Option Bytes
  | .text payload | .binary payload => some payload
  | _ => none

def WsEvent.ping? : WsEvent → Option Bytes
  | .ping payload => some payload
  | _ => none

/-- A ping that a frame completes carries the payload of the frame. -/
theorem assemble_ping {limit : Nat} {fragments fragments' : Fragments} {header : FrameHeader}
    {payload ping : Bytes} {events : List WsEvent}
    (h : assemble limit fragments header payload = .ok (events, fragments'))
    (hping : .ping ping ∈ events) : header.opcode = .ping ∧ ping = payload := by
  have hdata : ∀ (opcode : Opcode) (bytes : Bytes), .ping ping ≠ dataEvent opcode bytes := by
    intro opcode bytes
    unfold dataEvent
    split_ifs <;> simp
  have hclose : ∀ event, closeEvent payload = .ok event → .ping ping ≠ event := by
    intro event hevent
    unfold closeEvent at hevent
    split at hevent <;> cases hevent <;> simp
  unfold assemble at h
  split at h
  · rename_i hopcode
    cases h
    exact ⟨hopcode, by simpa using hping⟩
  · cases h
    simp at hping
  · cases hevent : closeEvent payload with
    | error err => simp [hevent, Except.map] at h
    | ok event =>
        simp only [hevent, Except.map, Except.ok.injEq, Prod.mk.injEq] at h
        obtain ⟨rfl, -⟩ := h
        exact absurd (List.mem_singleton.mp hping) (hclose event hevent)
  · cases h
  · split_ifs at h
    · cases h
      exact absurd (List.mem_singleton.mp hping) (hdata _ _)
    · cases h
      simp at hping
  · cases h
  · split_ifs at h
    · cases h
      exact absurd (List.mem_singleton.mp hping) (hdata _ _)
    · cases h
      simp at hping

/-- Every ping that the decoder finds fits in a pong. -/
theorem decodeFrom_ping (config : ReaderConfig) (fragments : Fragments) (bytes : Bytes)
    {ping : Bytes} (h : .ping ping ∈ (decodeFrom config fragments bytes).1) :
    ping.length ≤ maxControlPayload := by
  fun_induction decodeFrom config fragments bytes with
  | case1 | case2 | case3 | case4 => simp at h
  | case5 fragments bytes header hparse hlong events fragments' hassemble more out hmore ih =>
      rw [hmore] at ih
      rcases List.mem_append.mp h with hnow | hlater
      · obtain ⟨hopcode, rfl⟩ := assemble_ping hassemble hnow
        rw [length_slice (by omega)]
        exact parseServerHeader_control hparse (by rw [hopcode]; rfl)
      · exact ih hlater

/-! ## §2 Connection -/

namespace WsClient

variable {config : ReaderConfig} {stream : Bytes} {events : List WsEvent} {c : WsClient}

/-- Polling touches neither what is sent nor what arrives. -/
theorem nextEvent_keeps (c : WsClient) :
    c.nextEvent.2.out = c.out ∧ c.nextEvent.2.wire = c.wire ∧ c.nextEvent.2.socket = c.socket :=
  ⟨rfl, rfl, rfl⟩

/-- Where polling finds no event, everything received was handed out. -/
theorem nextEvent_drained (h : Follows config stream events c) (hnone : c.nextEvent.1 = .ok none) :
    ∃ received, received ++ arrived c.socket = stream ∧
      decode config received = (events, none) := by
  obtain ⟨received, hstream, hstreaming⟩ := h
  have hpoll := hstreaming.poll
  rw [nextEvent] at hnone
  generalize c.reader.poll = polled at hpoll hnone
  obtain ⟨found, reader⟩ := polled
  cases found with
  | error err => cases hnone
  | ok found =>
      cases found with
      | some event => cases hnone
      | none => exact ⟨received, hstream, by rw [decode, hpoll.2]⟩

theorem send_follows (h : Follows config stream events c) (opcode : Opcode) (payload : Bytes)
    (sending : Sending) : Follows config stream events (c.send opcode payload sending).2 := by
  obtain ⟨received, hstream, hstreaming⟩ := h
  obtain ⟨hsocket, hreader⟩ := send_keeps c opcode payload sending
  exact ⟨received, by rw [hsocket]; exact hstream, by rw [hreader]; exact hstreaming⟩

/-- The events that a client handed out are those that the decoder finds first. -/
theorem Follows.heard (h : Follows config stream events c) : events <+: (decode config stream).1 := by
  obtain ⟨received, rfl, hstreaming⟩ := h
  exact hstreaming.events_prefix _

theorem Follows.pings (h : Follows config stream events c) {ping : Bytes}
    (hping : .ping ping ∈ events) : ping.length ≤ maxControlPayload := by
  obtain ⟨received, -, hstreaming⟩ := h
  refine decodeFrom_ping config none received ?_
  rw [hstreaming.decoded]
  exact List.mem_append_left _ hping

end WsClient

/-- The last connection: how it was opened, and the deeds since. -/
def lastConnection (deeds : List Deed) : Option (Opening × List Deed) :=
  deeds.foldl (fun last deed =>
    match deed with
    | .opened opening => some (opening, [])
    | deed => last.map fun (opening, since) => (opening, since ++ [deed])) none

def Deed.isOpened : Deed → Bool
  | .opened _ => true
  | _ => false

theorem lastConnection_append {deeds : List Deed} : ∀ {deeds' : List Deed},
    (∀ deed ∈ deeds', deed.isOpened = false) →
      lastConnection (deeds ++ deeds') =
        (lastConnection deeds).map fun (opening, since) => (opening, since ++ deeds') := by
  intro deeds'
  induction deeds' using List.reverseRecOn with
  | nil => intro _; simp
  | append_singleton deeds' deed ih =>
      intro hnone
      have hrest := ih fun deed hmem => hnone deed (List.mem_append_left _ hmem)
      have hdeed := hnone deed (by simp)
      rw [lastConnection] at hrest
      rw [lastConnection, ← List.append_assoc, List.foldl_append, hrest]
      cases deed <;> simp [Deed.isOpened, Function.comp_def] at hdeed ⊢

theorem lastConnection_opened (deeds : List Deed) (opening : Opening) (step : SessionStep) :
    lastConnection (deeds ++ [.opened opening, .session step]) =
      some (opening, [.session step]) := by
  simp [lastConnection]

def Deed.event? : Deed → Option WsEvent
  | .event found => some found
  | _ => none

def Deed.message? : Deed → Option Bytes
  | .session (.message bytes _) => some bytes
  | _ => none

def Deed.reply? : Deed → Option (Bytes × WsClient.Sending)
  | .replied payload sending => some (payload, sending)
  | _ => none

/-- The events that the client handed out. -/
def eventsOf (deeds : List Deed) : List WsEvent := deeds.filterMap Deed.event?

/-- The messages that the books were handed. -/
def messagesOf (deeds : List Deed) : List Bytes := deeds.filterMap Deed.message?

/-- The pongs that the thread sent. -/
def repliesOf (deeds : List Deed) : List (Bytes × WsClient.Sending) := deeds.filterMap Deed.reply?

/-- The frames of pongs. -/
def pongFrames (replies : List (Bytes × WsClient.Sending)) : Bytes :=
  replies.flatMap fun (payload, sending) => WsClient.frameOf .pong payload sending

section Deeds

variable (deeds deeds' : List Deed)

@[simp] theorem eventsOf_append : eventsOf (deeds ++ deeds') = eventsOf deeds ++ eventsOf deeds' :=
  List.filterMap_append

@[simp] theorem messagesOf_append :
    messagesOf (deeds ++ deeds') = messagesOf deeds ++ messagesOf deeds' := List.filterMap_append

@[simp] theorem repliesOf_append :
    repliesOf (deeds ++ deeds') = repliesOf deeds ++ repliesOf deeds' := List.filterMap_append

end Deeds

/-- Whether the loop that drains everything received is done. -/
def Point.isDrained : Point → Bool
  | .top | .drain => false
  | _ => true

/-- The client of a connection on which the thread streams: it stands in the stream behind
the events that it handed out, the wire holds the request and the pongs, and where the loop
is done everything received was handed out. -/
structure Streams (config : ReaderConfig) (stream request : Bytes) (deeds : List Deed)
    (client : WsClient) (point : Point) : Prop where
  follows : client.Follows config stream (eventsOf deeds)
  roomy : client.Roomy
  wire : client.wire = request ++ pongFrames (repliesOf deeds)
  drained : point.isDrained → ∃ received, received ++ arrived client.socket = stream ∧
    decode config received = (eventsOf deeds, none)

/-- What the deeds on a connection say of its stream. -/
structure Serves (config : ReaderConfig) (stream request : Bytes) (deeds : List Deed)
    (place : Place) : Prop where
  heard : eventsOf deeds <+: (decode config stream).1
  handed : messagesOf deeds = (eventsOf deeds).filterMap WsEvent.data?
  answered : (repliesOf deeds).map Prod.fst = (eventsOf deeds).filterMap WsEvent.ping?
  client : ∀ c point, place = .streaming c point →
    Streams config stream request deeds c.client point

section Serves

variable {config : ReaderConfig} {stream request : Bytes} {deeds deeds' : List Deed}
  {place place' : Place}

/-- Deeds that have nothing to do with the connection, and a place that keeps its client. -/
theorem Serves.silent (h : Serves config stream request deeds place)
    (hevents : eventsOf deeds' = []) (hmessages : messagesOf deeds' = [])
    (hreplies : repliesOf deeds' = [])
    (hplace : ∀ c' point', place' = .streaming c' point' → ∃ c point,
      place = .streaming c point ∧ c'.client = c.client ∧ (point'.isDrained → point.isDrained)) :
    Serves config stream request (deeds ++ deeds') place' := by
  refine ⟨?_, ?_, ?_, fun c' point' hstreaming => ?_⟩
  · simpa [hevents] using h.heard
  · simpa [hevents, hmessages] using h.handed
  · simpa [hevents, hreplies] using h.answered
  · obtain ⟨c, point, hat, hclient, hdrained⟩ := hplace c' point' hstreaming
    obtain ⟨hfollows, hroomy, hwire, hdone⟩ := h.client c point hat
    rw [hclient]
    refine ⟨?_, hroomy, ?_, fun hpoint => ?_⟩
    · simpa [hevents] using hfollows
    · simpa [hreplies] using hwire
    · simpa [hevents] using hdone (hdrained hpoint)

/-- Deeds about the next event that a client handed out. -/
theorem Serves.handled (h : Serves config stream request deeds place) {event : WsEvent}
    {client : WsClient} (hfollows : client.Follows config stream (eventsOf deeds ++ [event]))
    (hevents : eventsOf deeds' = [event]) (hmessages : messagesOf deeds' = event.data?.toList)
    (hreplies : (repliesOf deeds').map Prod.fst = event.ping?.toList)
    (hplace : ∀ c' point', place' = .streaming c' point' →
      point'.isDrained = false ∧ c'.client.Follows config stream (eventsOf deeds ++ [event]) ∧
        c'.client.Roomy ∧ c'.client.wire = request ++ pongFrames (repliesOf (deeds ++ deeds'))) :
    Serves config stream request (deeds ++ deeds') place' := by
  refine ⟨?_, ?_, ?_, fun c' point' hstreaming => ?_⟩
  · rw [eventsOf_append, hevents]
    exact hfollows.heard
  · rw [messagesOf_append, eventsOf_append, hevents, hmessages, h.handed, List.filterMap_append]
    cases event <;> rfl
  · rw [repliesOf_append, eventsOf_append, List.map_append, hevents, hreplies, h.answered,
      List.filterMap_append]
    cases event <;> rfl
  · obtain ⟨hdrained, hfollows', hroomy, hwire⟩ := hplace c' point' hstreaming
    refine ⟨?_, hroomy, hwire, fun hpoint => ?_⟩
    · rw [eventsOf_append, hevents]
      exact hfollows'
    · rw [hdrained] at hpoint
      cases hpoint

end Serves

/-! ## §3 Stream -/

namespace MdThread

section Serves

variable {t : MdThread} {c : Connection} {stream request : Bytes} {deeds : List Deed}

/-- An event of a client is handed on, and a ping is answered. -/
theorem onEvent_serves {config : ReaderConfig} {place : Place} {event : WsEvent}
    (h : Serves config stream request deeds place)
    (hfollows : c.client.Follows config stream (eventsOf deeds ++ [event]))
    (hroomy : c.client.Roomy) (hwire : c.client.wire = request ++ pongFrames (repliesOf deeds))
    (m : Moment) :
    Serves config stream request (deeds ++ (t.onEvent c event m).2)
      (t.onEvent c event m).1.place := by
  have hquiet : ∀ place', (∀ c' point', place' = .streaming c' point' → c' = c ∧ point' = .drain) →
      ∀ deeds', eventsOf deeds' = [event] → messagesOf deeds' = event.data?.toList →
        repliesOf deeds' = [] → event.ping? = none →
        Serves config stream request (deeds ++ deeds') place' := by
    intro place' hplace deeds' hevents hmessages hreplies hping
    refine h.handled hfollows hevents hmessages (by rw [hreplies, hping]; rfl) fun c' point' hat => ?_
    obtain ⟨rfl, rfl⟩ := hplace c' point' hat
    exact ⟨rfl, hfollows, hroomy, by simpa [hreplies] using hwire⟩
  have hmessage : ∀ bytes, event.data? = some bytes → event.ping? = none →
      Serves config stream request
        (deeds ++ [.event event, .session (.message bytes m.clock), .timed m.nanos])
        (t.message c bytes m).place := by
    intro bytes hdata hping
    refine hquiet _ (fun c' point' hat => ?_) _ rfl (by rw [hdata]; rfl) rfl hping
    unfold message at hat
    dsimp only at hat
    split at hat <;> cases hat
    exact ⟨rfl, rfl⟩
  cases event with
  | text bytes => exact hmessage bytes rfl rfl
  | binary bytes => exact hmessage bytes rfl rfl
  | pong payload => exact hquiet _ (fun _ _ hat => by cases hat; exact ⟨rfl, rfl⟩) _ rfl rfl rfl rfl
  | close code reason => exact hquiet _ (fun _ _ hat => by cases hat) _ rfl rfl rfl rfl
  | ping payload =>
      have hshort : payload.length ≤ maxControlPayload := hfollows.pings (by simp)
      have hall : payload.take (min payload.length 125) = payload :=
        List.take_of_length_le (by rw [maxControlPayload] at hshort; omega)
      obtain ⟨hroomy', part, -, hpart, hwhole, -⟩ := WsClient.send_spec hroomy .pong payload m.sending
      have hsent := WsClient.send_follows hfollows .pong payload m.sending
      simp only [onEvent, hall]
      generalize c.client.send .pong payload m.sending = sent at hroomy' hpart hwhole hsent
      obtain ⟨result, client⟩ := sent
      cases result with
      | error err =>
          exact h.handled hfollows rfl rfl rfl fun _ _ hat => by cases hat
      | ok u =>
          refine h.handled hfollows rfl rfl rfl fun c' point' hat => ?_
          cases hat
          refine ⟨rfl, hsent, hroomy', ?_⟩
          obtain ⟨-, rfl⟩ := hwhole rfl
          have hreply : repliesOf [.event (.ping payload), .replied payload m.sending] =
              [(payload, m.sending)] := rfl
          rw [hpart, hwire, repliesOf_append, hreply]
          simp [pongFrames]

theorem drain_serves {config : ReaderConfig}
    (h : Serves config stream request deeds (.streaming c .drain)) (m : Moment) :
    Serves config stream request (deeds ++ (t.drain c m).2) (t.drain c m).1.place := by
  obtain ⟨hfollows, hroomy, hwire, -⟩ := h.client c .drain rfl
  have hnext := WsClient.nextEvent_follows hfollows
  have hdrained := WsClient.nextEvent_drained hfollows
  have hkeeps := c.client.nextEvent_keeps
  unfold drain
  generalize c.client.nextEvent = polled at hnext hdrained hkeeps
  obtain ⟨found, client⟩ := polled
  obtain ⟨hout, hwire', hsocket⟩ := hkeeps
  have hroomy' : client.Roomy := by
    rw [WsClient.Roomy, hout]
    exact hroomy
  cases found with
  | error err => exact h.silent rfl rfl rfl fun _ _ hat => by cases hat
  | ok found =>
      cases found with
      | some event => exact onEvent_serves h hnext hroomy' (hwire'.trans hwire) m
      | none =>
          dsimp only
          rw [List.append_nil]
          refine ⟨h.heard, h.handed, h.answered, fun c' point' hat => ?_⟩
          cases hat
          exact ⟨hnext.1, hroomy', hwire'.trans hwire, fun _ => hsocket ▸ hdrained rfl⟩

theorem check_serves (supplied : Supplied) {config : ReaderConfig}
    (h : Serves config stream request deeds (.streaming c .check)) (m : Moment) :
    Serves config stream request deeds (t.check supplied c m).place := by
  have hgone : ∀ c' reason, Serves config stream request deeds (t.go (.leaving c' reason)).place :=
    fun c' reason => ⟨h.heard, h.handed, h.answered, fun _ _ hat => by cases hat⟩
  obtain ⟨hfollows, hroomy, hwire, -⟩ := h.client c .check rfl
  have hfilled := WsClient.fill_follows hfollows
  obtain ⟨hroomy', part, hpart, hwire', -⟩ := WsClient.call_wire hroomy .fill
  have hnothing : part = [] := List.prefix_nil.mp hpart
  rw [hnothing, List.append_nil, hwire] at hwire'
  unfold check
  split_ifs
  · exact hgone ..
  · exact hgone ..
  · simp only [WsClient.call] at hroomy' hwire'
    generalize c.client.fill = filled at hfilled hroomy' hwire'
    obtain ⟨result, client⟩ := filled
    cases result with
    | error err => exact hgone ..
    | ok n =>
        have hstreams : ∀ c' : Connection, c'.client = client →
            Serves config stream request deeds (t.go (.streaming c' .top)).place := by
          intro c' hclient
          refine ⟨h.heard, h.handed, h.answered, fun c'' point' hat => ?_⟩
          cases hat
          rw [hclient]
          exact ⟨hfilled, hroomy', hwire', fun hdrained => by cases hdrained⟩
        dsimp only
        split_ifs
        · exact hstreams _ rfl
        · exact hstreams _ rfl

end Serves

/-- An action on the last connection, if any: it opens no other, and goes on serving it. -/
def Continues (t t' : MdThread) (deeds' : List Deed) : Prop :=
  (∀ deed ∈ deeds', deed.isOpened = false) ∧
    ∀ {stream request : Bytes} {deeds : List Deed},
      Serves t.config.reader stream request deeds t.place →
        Serves t.config.reader stream request (deeds ++ deeds') t'.place

/-- Deeds that have nothing to do with the connection, and a place that is not on one. -/
theorem continues_off (t : MdThread) {t' : MdThread} {deeds' : List Deed}
    (hopened : ∀ deed ∈ deeds', deed.isOpened = false) (hevents : eventsOf deeds' = [])
    (hmessages : messagesOf deeds' = []) (hreplies : repliesOf deeds' = [])
    (hplace : t'.place.isStreaming = false) : t.Continues t' deeds' := by
  refine ⟨hopened, fun h => h.silent hevents hmessages hreplies fun c point hat => ?_⟩
  rw [hat] at hplace
  cases hplace

/-- The same, at the next point of the same connection. -/
theorem continues_on {t t' : MdThread} {c : Connection} {point point' : Point}
    {deeds' : List Deed} (hplace : t.place = .streaming c point)
    (hopened : ∀ deed ∈ deeds', deed.isOpened = false) (hevents : eventsOf deeds' = [])
    (hmessages : messagesOf deeds' = []) (hreplies : repliesOf deeds' = [])
    (hplace' : t'.place = .streaming c point') (hdrained : point'.isDrained → point.isDrained) :
    t.Continues t' deeds' := by
  refine ⟨hopened, fun h => h.silent hevents hmessages hreplies fun c' q hat => ?_⟩
  rw [hplace'] at hat
  cases hat
  exact ⟨c, point, hplace, rfl, hdrained⟩

theorem onEvent_opened (t : MdThread) (c : Connection) (event : WsEvent) (m : Moment) :
    ∀ deed ∈ (t.onEvent c event m).2, deed.isOpened = false := by
  cases event with
  | ping payload =>
      simp only [onEvent]
      split <;> simp [Deed.isOpened]
  | _ => simp [onEvent, Deed.isOpened]

theorem stream_continues (supplied : Supplied) {t : MdThread} {c : Connection} {point : Point}
    (hplace : t.place = .streaming c point) (m : Moment) :
    t.Continues (t.stream supplied c m point).1 (t.stream supplied c m point).2 := by
  cases point with
  | top =>
      simp only [stream]
      split_ifs
      · exact continues_off t (by simp) rfl rfl rfl rfl
      · exact continues_on hplace (by simp) rfl rfl rfl rfl id
  | drain =>
      refine ⟨?_, fun h => drain_serves (hplace ▸ h) m⟩
      simp only [stream, drain]
      split
      · simp
      · simp
      · exact t.onEvent_opened _ _ m
  | collect =>
      simp only [stream, collect]
      split_ifs
      · exact continues_on hplace (by simp) rfl rfl rfl rfl id
      · exact continues_on hplace (by simp [Deed.isOpened]) rfl rfl rfl hplace id
  | request => exact continues_on hplace (by simp [stream, Deed.isOpened]) rfl rfl rfl rfl id
  | schedule => exact continues_on hplace (by simp [stream, Deed.isOpened]) rfl rfl rfl rfl id
  | report =>
      simp only [stream, maybeReport]
      split_ifs
      · exact continues_on hplace (by simp) rfl rfl rfl rfl id
      · exact continues_on hplace (by simp [Deed.isOpened]) rfl rfl rfl rfl id
  | check =>
      refine ⟨by simp [stream], fun h => ?_⟩
      simp only [stream, List.append_nil]
      exact check_serves supplied (hplace ▸ h) m

/-- An action opens a connection, or goes on with the last one. -/
theorem act_continues (supplied : Supplied) (t : MdThread) (a : Action) :
    (∃ (m : Moment) (client : WsClient), t.place = .opening ∧
      WsClient.connect supplied.sha1 t.streamUrl t.config.reader m.opening = .ok client ∧
      (t.act supplied a).1.place = .streaming ⟨client, m.clock.now, m.after, m.after⟩ .top ∧
      (t.act supplied a).2 = [.opened m.opening, .session (.connected m.clock)]) ∨
    t.Continues (t.act supplied a).1 (t.act supplied a).2 := by
  cases a with
  | takeJob =>
      refine .inr ⟨by simp [act, Deed.isOpened], fun h => ?_⟩
      exact h.silent rfl rfl rfl fun c point hat => ⟨c, point, hat, rfl, id⟩
  | finishJob response fetchedAt =>
      refine .inr ⟨by simp [act, Deed.isOpened], fun h => ?_⟩
      exact h.silent rfl rfl rfl fun c point hat => ⟨c, point, hat, rfl, id⟩
  | act m =>
      simp only [act]
      cases hplace : t.place with
      | connecting =>
          refine .inr ?_
          simp only [run, hplace]
          split_ifs
          · exact continues_off t (by simp) rfl rfl rfl rfl
          · exact continues_off t (by simp [Deed.isOpened]) rfl rfl rfl rfl
      | opening =>
          simp only [run, hplace, connect]
          cases hconnect : WsClient.connect supplied.sha1 t.streamUrl t.config.reader m.opening with
          | error err => exact .inr (continues_off t (by simp) rfl rfl rfl rfl)
          | ok client => exact .inl ⟨m, client, trivial, hconnect, rfl, rfl⟩
      | streaming c point =>
          simp only [run, hplace]
          exact .inr (stream_continues supplied hplace m)
      | leaving c reason =>
          simp only [run, hplace, leave]
          exact .inr (continues_off t (by simp [Deed.isOpened]) rfl rfl rfl rfl)
      | down reason =>
          simp only [run, hplace]
          exact .inr (continues_off t (by simp [Deed.isOpened]) rfl rfl rfl rfl)
      | disconnected reason =>
          simp only [run, hplace]
          exact .inr (continues_off t (by simp [Deed.isOpened]) rfl rfl rfl rfl)
      | waiting =>
          refine .inr ?_
          simp only [run, hplace]
          split_ifs
          · exact continues_off t (by simp) rfl rfl rfl rfl
          · exact continues_off t (by simp [Deed.isOpened]) rfl rfl rfl rfl
      | stopped =>
          simp only [run, hplace]
          exact .inr (continues_off t (by simp) rfl rfl rfl (by rw [hplace]; rfl))

/-- No action changes the settings or the URL. -/
theorem act_fixed (supplied : Supplied) (t : MdThread) (a : Action) :
    (t.act supplied a).1.config = t.config ∧ (t.act supplied a).1.streamUrl = t.streamUrl := by
  cases a with
  | takeJob => exact ⟨rfl, rfl⟩
  | finishJob response fetchedAt => exact ⟨rfl, rfl⟩
  | act m =>
      simp only [act, run]
      split
      · split_ifs <;> exact ⟨rfl, rfl⟩
      · unfold connect
        split <;> exact ⟨rfl, rfl⟩
      · rename_i c point _
        cases point with
        | top => exact ⟨rfl, rfl⟩
        | drain =>
            simp only [stream, drain]
            split
            · exact ⟨rfl, rfl⟩
            · exact ⟨rfl, rfl⟩
            · rename_i event _ _
              cases event with
              | ping payload => simp only [onEvent]; split <;> exact ⟨rfl, rfl⟩
              | _ => exact ⟨rfl, rfl⟩
        | collect => simp only [stream, collect]; split_ifs <;> exact ⟨rfl, rfl⟩
        | request => exact ⟨rfl, rfl⟩
        | schedule => exact ⟨rfl, rfl⟩
        | report => simp only [stream, maybeReport]; split_ifs <;> exact ⟨rfl, rfl⟩
        | check =>
            simp only [stream, check]
            split_ifs
            · exact ⟨rfl, rfl⟩
            · exact ⟨rfl, rfl⟩
            · split
              · exact ⟨rfl, rfl⟩
              · split_ifs <;> exact ⟨rfl, rfl⟩
      · exact ⟨rfl, rfl⟩
      · exact ⟨rfl, rfl⟩
      · exact ⟨rfl, rfl⟩
      · split_ifs <;> exact ⟨rfl, rfl⟩
      · exact ⟨rfl, rfl⟩

end MdThread

section Runs

variable (supplied : Supplied) (config : RunConfig) (url : Url)

/-- The response to the upgrade was accepted, and the deeds since serve the stream behind
it. -/
def ServesOpening (opening : Opening) (since : List Deed) (place : Place) : Prop :=
  ∃ random n, opening.random = .ok random ∧
    let handshake := Handshake.new supplied.sha1 random
    handshake.parseResponse (arrived opening.socket) = .ok (some n) ∧
      Serves config.reader ((arrived opening.socket).drop n)
        (handshake.writeRequest url.hostHeader url.path) since place

/-- What the deeds of a run are on its last connection. -/
structure Sees (t : MdThread) (deeds : List Deed) : Prop where
  config_eq : t.config = config
  url_eq : t.streamUrl = url
  serves : ∀ opening since, lastConnection deeds = some (opening, since) →
    ServesOpening supplied config url opening since t.place

variable {supplied config url}

theorem Sees.act (hbuffer : upgradeChunk ≤ config.reader.buffer + 1) (t : MdThread)
    (deeds : List Deed) (a : Action) (h : Sees supplied config url t deeds) :
    Sees supplied config url (t.act supplied a).1 (deeds ++ (t.act supplied a).2) := by
  obtain ⟨hconfig, hurl⟩ := t.act_fixed supplied a
  refine ⟨hconfig.trans h.config_eq, hurl.trans h.url_eq, fun opening since hlast => ?_⟩
  rcases t.act_continues supplied a with ⟨m, client, -, hconnect, hplace, hdeeds⟩ | ⟨hopened, hserves⟩
  · rw [hdeeds, lastConnection_opened] at hlast
    cases hlast
    rw [h.config_eq, h.url_eq] at hconnect
    obtain ⟨random, n, hrandom, hparse, hfollows⟩ := WsClient.connect_follows hconnect hbuffer
    obtain ⟨random', hrandom', hroomy, hwire⟩ := WsClient.connect_wire hconnect
    rw [hrandom] at hrandom'
    cases hrandom'
    refine ⟨random, n, hrandom, hparse, ⟨List.nil_prefix, rfl, rfl, fun c point hat => ?_⟩⟩
    rw [hplace] at hat
    cases hat
    have hrequest : client.wire = _ ++ pongFrames [] := hwire.trans (List.append_nil _).symm
    exact ⟨hfollows, hroomy, hrequest, fun hdrained => by cases hdrained⟩
  · rw [lastConnection_append hopened, Option.map_eq_some_iff] at hlast
    obtain ⟨⟨opening', since'⟩, hlast', heq⟩ := hlast
    cases heq
    obtain ⟨random, n, hrandom, hparse, hsince⟩ := h.serves opening since' hlast'
    rw [h.config_eq] at hserves
    exact ⟨random, n, hrandom, hparse, hserves hsince⟩

theorem Sees.runs (hbuffer : upgradeChunk ≤ config.reader.buffer + 1) (session : MdSession)
    (now : Instant) (actions : List Action) :
    Sees supplied config url ((MdThread.start config url session now).runs supplied actions).1
      ((MdThread.start config url session now).runs supplied actions).2 := by
  have hstart : Sees supplied config url (MdThread.start config url session now) [] :=
    ⟨rfl, rfl, fun _ _ hlast => by cases hlast⟩
  exact runMachine_induction (Sees.act hbuffer) actions hstart

end Runs

/-- **The books get the stream.** On every run of a thread whose buffer holds all that may
come with a response, for the last connection that it opened: its upgrade response was
accepted; what the client handed out is the front of what the decoder finds in the stream
behind that response; the books were handed exactly the payloads of its data messages, in
order; every ping was answered by one pong with its payload; and while the thread streams,
the wire holds the upgrade request and these pongs, and past the drain loop everything
received was handed on. -/
theorem books_get_the_stream (supplied : Supplied) {config : RunConfig} (url : Url)
    (hbuffer : upgradeChunk ≤ config.reader.buffer + 1) (session : MdSession) (now : Instant)
    (actions : List Action) {opening : Opening} {since : List Deed}
    (hlast : lastConnection ((MdThread.start config url session now).runs supplied actions).2 =
      some (opening, since)) :
    ServesOpening supplied config url opening since
      ((MdThread.start config url session now).runs supplied actions).1.place :=
  (Sees.runs hbuffer session now actions).serves opening since hlast

/-- What happens on the connection of the sample run. -/
theorem sample_connection_opened :
    ∃ since, lastConnection (sampleRun liveActions).2 = some (streamOpening, since) ∧
      eventsOf since = [.text (rangeMessage 11 12 100 2), .ping [104, 105]] := by
  have h : ((lastConnection (sampleRun liveActions).2).any fun last =>
      decide (last.1 = streamOpening ∧
        eventsOf last.2 = [.text (rangeMessage 11 12 100 2), .ping [104, 105]])) = true := by
    decide +kernel
  obtain ⟨⟨opening, since⟩, hlast, hfacts⟩ := (Option.any_eq_true ..).mp h
  obtain ⟨rfl, hevents⟩ := of_decide_eq_true hfacts
  exact ⟨since, hlast, hevents⟩

/-- A message and a ping are handed out: the message is handed to the books, and the ping
is answered. -/
theorem sample_books_get_the_stream :
    ∃ since, lastConnection (sampleRun liveActions).2 = some (streamOpening, since) ∧
      eventsOf since = [.text (rangeMessage 11 12 100 2), .ping [104, 105]] ∧
      messagesOf since = [rangeMessage 11 12 100 2] ∧
      (repliesOf since).map Prod.fst = [[104, 105]] ∧
      ServesOpening sampleSupplied sampleRunConfig sampleUrl streamOpening since
        (sampleRun liveActions).1.place := by
  obtain ⟨since, hlast, hevents⟩ := sample_connection_opened
  have hserves :=
    books_get_the_stream sampleSupplied sampleUrl (by decide) btcSession 0 liveActions hlast
  obtain ⟨random, n, hrandom, hparse, hsince⟩ := hserves
  refine ⟨since, hlast, hevents, ?_, ?_, ⟨random, n, hrandom, hparse, hsince⟩⟩
  · rw [hsince.handed, hevents]
    rfl
  · rw [hsince.answered, hevents]
    rfl

/-! ## §4 Telemetry -/

/-- A fresh histogram that recorded values. -/
def recordAll (values : List UInt64) : LatencyHistogram := values.foldl LatencyHistogram.record .new

theorem recordAll_snoc (values : List UInt64) (nanos : UInt64) :
    recordAll (values ++ [nanos]) = (recordAll values).record nanos := by
  simp [recordAll]

/-- A reset histogram is a fresh one. -/
theorem reset_eq_new (h : LatencyHistogram) : h.reset = .new := by
  simp [LatencyHistogram.reset, LatencyHistogram.new, List.map_const', h.length_counts]

def Deed.time? : Deed → Option UInt64
  | .timed nanos => some nanos
  | _ => none

/-- How long messages took to decode and apply. -/
def timesOf (deeds : List Deed) : List UInt64 := deeds.filterMap Deed.time?

@[simp] theorem timesOf_append (deeds deeds' : List Deed) :
    timesOf (deeds ++ deeds') = timesOf deeds ++ timesOf deeds' := List.filterMap_append

/-- What an action does to the histograms and the reports. -/
inductive Timing (t t' : MdThread) (deeds : List Deed) : Prop where
  | quiet (hinterval : t'.intervalLatency = t.intervalLatency)
      (htotal : t'.totalLatency = t.totalLatency) (hreports : t'.reports = t.reports)
      (htimes : timesOf deeds = []) (hmessages : messagesOf deeds = [])
  | message {bytes : Bytes} {nanos : UInt64}
      (hinterval : t'.intervalLatency = t.intervalLatency.record nanos)
      (htotal : t'.totalLatency = t.totalLatency.record nanos) (hreports : t'.reports = t.reports)
      (htimes : timesOf deeds = [nanos]) (hmessages : messagesOf deeds = [bytes])
  | report {r : MdReport} (hinterval : t'.intervalLatency = .new)
      (htotal : t'.totalLatency = t.totalLatency) (hreports : t'.reports = t.reports ++ [r])
      (hlatency : r.latency = t.intervalLatency.summary)
      (hall : r.latencyTotal = t.totalLatency.summary)
      (htimes : timesOf deeds = []) (hmessages : messagesOf deeds = [])

theorem MdThread.stream_timing (supplied : Supplied) (t : MdThread) (c : Connection) (m : Moment)
    (point : Point) : Timing t (t.stream supplied c m point).1 (t.stream supplied c m point).2 := by
  have hgo : ∀ place, Timing t (t.go place) [] := fun _ => .quiet rfl rfl rfl rfl rfl
  cases point with
  | top => exact hgo _
  | drain =>
      simp only [stream, drain]
      split
      · exact hgo _
      · exact hgo _
      · rename_i event _ _
        cases event with
        | text bytes | binary bytes => exact .message rfl rfl rfl rfl rfl
        | ping payload => simp only [onEvent]; split <;> exact .quiet rfl rfl rfl rfl rfl
        | pong payload | close code reason => exact .quiet rfl rfl rfl rfl rfl
  | collect =>
      simp only [stream, collect]
      split_ifs
      · exact hgo _
      · exact .quiet rfl rfl rfl rfl rfl
  | request => exact .quiet rfl rfl rfl rfl rfl
  | schedule => exact .quiet rfl rfl rfl rfl rfl
  | report =>
      simp only [stream, maybeReport]
      split_ifs
      · exact hgo _
      · exact .report (reset_eq_new _) rfl rfl rfl rfl rfl rfl
  | check =>
      simp only [stream, check]
      split_ifs
      · exact hgo _
      · exact hgo _
      · split
        · exact hgo _
        · split_ifs <;> exact hgo _

theorem MdThread.act_timing (supplied : Supplied) (t : MdThread) (a : Action) :
    Timing t (t.act supplied a).1 (t.act supplied a).2 := by
  cases a with
  | takeJob => exact .quiet rfl rfl rfl rfl rfl
  | finishJob response fetchedAt => exact .quiet rfl rfl rfl rfl rfl
  | act m =>
      simp only [act, run]
      split
      · split_ifs <;> exact .quiet rfl rfl rfl rfl rfl
      · unfold connect
        split <;> exact .quiet rfl rfl rfl rfl rfl
      · exact t.stream_timing supplied _ m _
      · exact .quiet rfl rfl rfl rfl rfl
      · exact .quiet rfl rfl rfl rfl rfl
      · exact .quiet rfl rfl rfl rfl rfl
      · split_ifs <;> exact .quiet rfl rfl rfl rfl rfl
      · exact .quiet rfl rfl rfl rfl rfl

/-- The times of a run, shared out to its reports: those of each, and those since the last. -/
structure Shares (t : MdThread) (deeds : List Deed) (shares : List (List UInt64))
    (current : List UInt64) : Prop where
  times : shares.flatten ++ current = timesOf deeds
  handed : (timesOf deeds).length = (messagesOf deeds).length
  length : shares.length = t.reports.length
  reports : ∀ i r, t.reports[i]? = some r →
    r.latency = (recordAll (shares.getD i [])).summary ∧
      r.latencyTotal = (recordAll (shares.take (i + 1)).flatten).summary
  interval : t.intervalLatency = recordAll current
  total : t.totalLatency = recordAll (timesOf deeds)

theorem Shares.step {t t' : MdThread} {deeds deeds' : List Deed} {shares : List (List UInt64)}
    {current : List UInt64} (h : Shares t deeds shares current) (htiming : Timing t t' deeds') :
    ∃ shares' current', Shares t' (deeds ++ deeds') shares' current' := by
  cases htiming with
  | quiet hinterval htotal hreports htimes hmessages =>
      refine ⟨shares, current, ?_, ?_, ?_, ?_, ?_, ?_⟩
      · simpa [htimes] using h.times
      · simpa [htimes, hmessages] using h.handed
      · rw [hreports]
        exact h.length
      · rw [hreports]
        exact h.reports
      · rw [hinterval]
        exact h.interval
      · rw [htotal]
        simpa [htimes] using h.total
  | @message bytes nanos hinterval htotal hreports htimes hmessages =>
      refine ⟨shares, current ++ [nanos], ?_, ?_, ?_, ?_, ?_, ?_⟩
      · rw [timesOf_append, htimes, ← h.times, List.append_assoc]
      · simpa [htimes, hmessages] using h.handed
      · rw [hreports]
        exact h.length
      · rw [hreports]
        exact h.reports
      · rw [hinterval, h.interval, recordAll_snoc]
      · rw [htotal, h.total, timesOf_append, htimes, recordAll_snoc]
  | @report r hinterval htotal hreports hlatency hall htimes hmessages =>
      refine ⟨shares ++ [current], [], ?_, ?_, ?_, ?_, ?_, ?_⟩
      · simpa [htimes] using h.times
      · simpa [htimes, hmessages] using h.handed
      · simp [hreports, h.length]
      · intro i r' hr'
        rw [hreports] at hr'
        by_cases hi : i < t.reports.length
        · rw [List.getElem?_append_left hi] at hr'
          have hlt : i < shares.length := h.length.symm ▸ hi
          have hshare : (shares ++ [current]).getD i [] = shares.getD i [] := by
            simp [List.getD_eq_getElem?_getD, List.getElem?_append_left hlt]
          rw [hshare, List.take_append_of_le_length hlt]
          exact h.reports i r' hr'
        · rw [List.getElem?_append_right (Nat.le_of_not_lt hi)] at hr'
          have hlast : i = shares.length := by
            have hbound := (List.getElem?_eq_some_iff.mp hr').1
            rw [h.length]
            simp at hbound
            omega
          rw [hlast, h.length, Nat.sub_self] at hr'
          cases hr'
          rw [hlast, hlatency, hall, h.interval, h.total, ← h.times,
            List.take_of_length_le (by simp)]
          simp
      · exact hinterval
      · rw [htotal]
        simpa [htimes] using h.total

/-- **Reports share out the messages.** On every run of the thread, the times that messages
took to decode and apply, one for each message handed to the books, fall into one share for
each report and a last one: every report summarises a fresh histogram of exactly its share,
and one of everything up to it, and the histograms that the thread holds are those of the
last share and of all. -/
theorem reports_share_out_messages (supplied : Supplied) (config : RunConfig) (url : Url)
    (session : MdSession) (now : Instant) (actions : List Action) :
    let (t, deeds) := (MdThread.start config url session now).runs supplied actions
    ∃ shares current, Shares t deeds shares current := by
  have hstart : ∃ shares current, Shares (MdThread.start config url session now) [] shares current :=
    ⟨[], [], rfl, rfl, rfl, nofun, rfl, rfl⟩
  have hstep : ∀ t deeds a, (∃ shares current, Shares t deeds shares current) →
      ∃ shares current, Shares (MdThread.act supplied t a).1
        (deeds ++ (MdThread.act supplied t a).2) shares current :=
    fun t deeds a ⟨_, _, h⟩ => h.step (t.act_timing supplied a)
  exact runMachine_induction hstep actions hstart

end Bowst.Venue
