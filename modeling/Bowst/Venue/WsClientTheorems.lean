/-
Bowst.Venue.WsClientTheorems — a client sees the stream that its server sent, however
it arrives, and its server gets whole frames.

What a client has done is told by three byte strings: what is left to arrive
(`arrived`), what has been received behind the upgrade response, and the events so
far. `Streaming` ties the last two to the reader by the reference decoder, and every
call keeps it.

  §1 Reads      — what a read takes from the connection.
  §2 Upgrading  — the loop around the upgrade response is `feed`.
  §3 Streaming  — events so far, and events to come.
  §4 Sending    — what is on the wire.
-/
import Bowst.Venue.ClientFrameTheorems
import Bowst.Venue.HandshakeTheorems
import Bowst.Venue.WsClient
import Bowst.Venue.WsProgressTheorems

namespace Bowst.Venue

open Bowst.Core Bowst.Lib

/-! ## §1 Reads -/

/-- Everything that arrives on a connection. -/
def arrived : List Arrival → Bytes
  | [] => []
  | .bytes chunk :: socket => chunk ++ arrived socket
  | _ :: socket => arrived socket

/-- What one read brings. -/
def Arrival.data : Arrival → Bytes
  | .bytes chunk => chunk
  | _ => []

/-- A read takes from the front of what arrives. -/
theorem arrived_readSocket (size : Nat) (socket : List Arrival) :
    (readSocket size socket).1.data ++ arrived (readSocket size socket).2 = arrived socket := by
  unfold readSocket
  split
  · rfl
  · split_ifs with hfits
    · rfl
    · simp only [Arrival.data, arrived, ← List.append_assoc, List.take_append_drop]
  · rename_i arrival socket hnot
    cases arrival with
    | bytes chunk => exact absurd rfl (hnot chunk)
    | wouldBlock | interrupted | timedOut | failed => rfl

/-- A connection that goes on: no end, no error and no timeout. -/
def Flowing (socket : List Arrival) : Prop :=
  ∀ arrival ∈ socket, arrival = .interrupted ∨ ∃ chunk, chunk ≠ [] ∧ arrival = .bytes chunk

theorem Flowing.read {socket : List Arrival} (h : Flowing socket) (hne : socket ≠ []) {size : Nat}
    (hsize : 0 < size) :
    ((readSocket size socket).1 = .interrupted ∨
      ∃ chunk, chunk ≠ [] ∧ (readSocket size socket).1 = .bytes chunk) ∧
      Flowing (readSocket size socket).2 := by
  obtain ⟨arrival, rest, rfl⟩ := List.exists_cons_of_ne_nil hne
  have hrest : Flowing rest := fun a ha => h a (List.mem_cons_of_mem _ ha)
  rcases h arrival (List.mem_cons_self ..) with rfl | ⟨chunk, hchunk, rfl⟩
  · exact ⟨.inl rfl, hrest⟩
  · have hpos := List.length_pos_iff.mpr hchunk
    rw [readSocket]
    split_ifs with hfits
    · exact ⟨.inr ⟨chunk, hchunk, rfl⟩, hrest⟩
    · refine ⟨.inr ⟨chunk.take size, ?_, rfl⟩, ?_⟩
      · exact List.ne_nil_of_length_pos (by simp; omega)
      · intro a ha
        rcases List.mem_cons.mp ha with rfl | ha
        · exact .inr ⟨_, List.ne_nil_of_length_pos (by simp; omega), rfl⟩
        · exact hrest a ha

/-! ## §2 Upgrading -/

/-- How the loop that reads the upgrade response ends, by what the loop of the library
says about the pieces that it read. -/
def Upgraded (h : Handshake) (response : Bytes) (socket : List Arrival) (pieces : List Bytes) :
    Except NetError (Nat × Bytes × List Arrival) → Prop
  | .ok (n, seen, rest) =>
      feed h.parseResponse response pieces = (.ok (some n), seen, []) ∧
        pieces.flatten ++ arrived rest = arrived socket ∧ (Flowing socket → Flowing rest)
  | .error (.webSocket err) =>
      (feed h.parseResponse response pieces).1 = .error err ∧ pieces.flatten <+: arrived socket
  | .error err => Flowing socket → err = .timeout "WebSocket handshake" ∧
      (feed h.parseResponse response pieces).1 = .ok none ∧ pieces.flatten = arrived socket

section Upgrade

variable {h : Handshake} {response : Bytes} {socket rest : List Arrival} {pieces : List Bytes}
  {result : Except NetError (Nat × Bytes × List Arrival)}

/-- A piece that leaves the response incomplete. -/
theorem Upgraded.piece {chunk : Bytes} (harrived : chunk ++ arrived rest = arrived socket)
    (hflowing : Flowing socket → Flowing rest)
    (hmore : h.parseResponse (response ++ chunk) = .ok none)
    (hup : Upgraded h (response ++ chunk) rest pieces result) :
    Upgraded h response socket (chunk :: pieces) result := by
  unfold Upgraded at hup ⊢
  rw [feed_more hmore, List.flatten_cons]
  split at hup
  · obtain ⟨hfeed, hrest, hflow⟩ := hup
    exact ⟨hfeed, by rw [List.append_assoc, hrest, harrived], fun hf => hflow (hflowing hf)⟩
  · obtain ⟨hfeed, hpart⟩ := hup
    exact ⟨hfeed, by rw [← harrived]; exact (List.prefix_append_right_inj chunk).mpr hpart⟩
  · intro hf
    obtain ⟨herr, hfeed, hall⟩ := hup (hflowing hf)
    exact ⟨herr, hfeed, by rw [hall, harrived]⟩

/-- A read that brought nothing. -/
theorem Upgraded.skip (harrived : arrived rest = arrived socket)
    (hflowing : Flowing socket → Flowing rest) (hup : Upgraded h response rest pieces result) :
    Upgraded h response socket pieces result := by
  unfold Upgraded at hup ⊢
  rw [harrived] at hup
  split at hup
  · exact ⟨hup.1, hup.2.1, fun hf => hup.2.2 (hflowing hf)⟩
  · exact hup
  · exact fun hf => hup (hflowing hf)

/-- The loop reads pieces until the response is complete or refused. -/
theorem readUpgrade_feed (h : Handshake) (response : Bytes) (socket : List Arrival) :
    ∃ pieces, (∀ piece ∈ pieces, piece.length ≤ upgradeChunk) ∧
      Upgraded h response socket pieces (readUpgrade h response socket) := by
  have hread : ∀ {arrival : Arrival} {socket rest : List Arrival}, socket ≠ [] →
      readSocket upgradeChunk socket = (arrival, rest) →
      arrival.data ++ arrived rest = arrived socket ∧
        (Flowing socket → (arrival = .interrupted ∨ ∃ chunk, chunk ≠ [] ∧ arrival = .bytes chunk) ∧
          Flowing rest) := by
    intro arrival socket rest hne hread
    have harrived := arrived_readSocket upgradeChunk socket
    rw [hread] at harrived
    refine ⟨harrived, fun hf => ?_⟩
    have hflow := hf.read hne (show 0 < upgradeChunk by decide)
    rw [hread] at hflow
    exact hflow
  fun_induction readUpgrade h response socket with
  | case1 => exact ⟨[], by simp, fun _ => ⟨rfl, rfl, rfl⟩⟩
  | case2 response socket hne rest heq =>
      exact ⟨[], by simp, fun hf => by simpa using ((hread hne heq).2 hf).1⟩
  | case3 response socket hne chunk rest heq hchunk err herr =>
      refine ⟨[chunk], by simpa using length_readSocket heq, ?_, ?_⟩
      · rw [feed_stop (by simp [herr]), herr]
      · exact ⟨arrived rest, by rw [List.flatten_singleton]; exact (hread hne heq).1⟩
  | case4 response socket hne chunk rest heq hchunk len hlen =>
      refine ⟨[chunk], by simpa using length_readSocket heq, ?_, ?_, fun hf => ((hread hne heq).2 hf).2⟩
      · rw [feed_stop (by simp [hlen]), hlen]
      · rw [List.flatten_singleton]
        exact (hread hne heq).1
  | case5 response socket hne chunk rest heq hchunk hmore ih =>
      obtain ⟨pieces, hpieces, hup⟩ := ih
      obtain ⟨harrived, hflow⟩ := hread hne heq
      exact ⟨chunk :: pieces, List.forall_mem_cons.mpr ⟨length_readSocket heq, hpieces⟩,
        hup.piece harrived (fun hf => (hflow hf).2) hmore⟩
  | case6 response socket hne rest heq ih =>
      obtain ⟨pieces, hpieces, hup⟩ := ih
      obtain ⟨harrived, hflow⟩ := hread hne heq
      exact ⟨pieces, hpieces, hup.skip harrived fun hf => (hflow hf).2⟩
  | case7 response socket hne rest heq | case8 response socket hne source rest heq
  | case9 response socket hne source rest heq =>
      exact ⟨[], by simp, fun hf => by simpa using ((hread hne heq).2 hf).1⟩

theorem parseResponse_nil (h : Handshake) : h.parseResponse [] = .ok none := rfl

/-- A complete response is read with less than one piece of what follows it. -/
theorem readUpgrade_ok {n : Nat} {seen : Bytes}
    (hread : readUpgrade h [] socket = .ok (n, seen, rest)) :
    h.parseResponse (arrived socket) = .ok (some n) ∧ seen ++ arrived rest = arrived socket ∧
      n ≤ seen.length ∧ seen.length < n + upgradeChunk := by
  obtain ⟨pieces, hpieces, hup⟩ := readUpgrade_feed h [] socket
  rw [hread] at hup
  obtain ⟨hfeed, hrest, -⟩ := hup
  have hseen := feed_seen h.parseResponse pieces []
  have hparse := feed_parse h.parseResponse pieces [] (parseResponse_nil h)
  obtain ⟨before, piece, hmem, hbefore, hlast⟩ :=
    feed_last h.parseResponse pieces [] (parseResponse_nil h) (by simp [hfeed])
  rw [hfeed] at hseen hparse hlast
  simp only [List.flatten_nil, List.append_nil, List.nil_append] at hseen hparse hlast
  rw [← hseen] at hrest
  have hsettled := h.parseResponse_settles seen (arrived rest) (by simp [hparse])
  rw [hrest, hparse] at hsettled
  have hle := h.parseResponse_length hparse
  have hbehind : before.length < n :=
    h.parseResponse_behind hbefore (show h.parseResponse (before ++ piece) = _ by
      rw [← hlast]
      exact hparse)
  have hpiece := hpieces piece hmem
  refine ⟨hsettled, hrest, hle, ?_⟩
  rw [hlast, List.length_append]
  rw [upgradeChunk] at hpiece ⊢
  omega

/-- A refused response is refused however it arrives. -/
theorem readUpgrade_refused {err : WsError}
    (hread : readUpgrade h [] socket = .error (.webSocket err)) :
    h.parseResponse (arrived socket) = .error err := by
  obtain ⟨pieces, hpieces, hup⟩ := readUpgrade_feed h [] socket
  rw [hread] at hup
  obtain ⟨hfeed, more, hmore⟩ := hup
  have hanswer := feed_answer h.parseResponse_settles (parseResponse_nil h) pieces
  rw [hfeed, List.nil_append] at hanswer
  have hsettled := h.parseResponse_settles pieces.flatten more (by simp [← hanswer])
  rw [hmore, ← hanswer] at hsettled
  exact hsettled

/-- On a connection that goes on, what arrived decides. -/
theorem readUpgrade_flowing (hflowing : Flowing socket) :
    (∀ n, h.parseResponse (arrived socket) = .ok (some n) →
      ∃ seen rest, readUpgrade h [] socket = .ok (n, seen, rest) ∧ Flowing rest) ∧
    (∀ err, h.parseResponse (arrived socket) = .error err →
      readUpgrade h [] socket = .error (.webSocket err)) ∧
    (h.parseResponse (arrived socket) = .ok none →
      readUpgrade h [] socket = .error (.timeout "WebSocket handshake")) := by
  obtain ⟨pieces, hpieces, hup⟩ := readUpgrade_feed h [] socket
  cases hread : readUpgrade h [] socket with
  | ok found =>
      obtain ⟨n, seen, rest⟩ := found
      have hok := (readUpgrade_ok hread).1
      rw [hread] at hup
      simp only [hok]
      refine ⟨fun m hm => ?_, by simp, by simp⟩
      cases hm
      exact ⟨seen, rest, rfl, hup.2.2 hflowing⟩
  | error err =>
      by_cases hrefused : ∃ ws, err = .webSocket ws
      · obtain ⟨ws, rfl⟩ := hrefused
        simp [readUpgrade_refused hread]
      · have hwaits : err = .timeout "WebSocket handshake" ∧
            (feed h.parseResponse [] pieces).1 = .ok none ∧ pieces.flatten = arrived socket := by
          rw [hread] at hup
          cases err with
          | webSocket ws => exact absurd ⟨ws, rfl⟩ hrefused
          | _ => exact hup hflowing
        obtain ⟨rfl, hfeed, hall⟩ := hwaits
        have hanswer := feed_answer h.parseResponse_settles (parseResponse_nil h) pieces
        rw [hfeed, List.nil_append, hall] at hanswer
        simp [← hanswer]

end Upgrade

/-! ## §3 Streaming -/

/-- The events that a reader gave so far, and those that the decoder finds in what it
holds, are those of everything received. -/
structure Streaming (config : ReaderConfig) (received : Bytes) (events : List WsEvent)
    (r : WsReader) : Prop where
  sizes : r.config = config
  decoded : decodeFrom config none received = (events ++ r.decoded.1, r.decoded.2)

section Streaming

variable {config : ReaderConfig} {received : Bytes} {events : List WsEvent} {r : WsReader}

theorem Streaming.new (hnew : WsReader.new config = .ok r) : Streaming config [] [] r := by
  obtain ⟨hconfig, hfragments, havailable⟩ := WsReader.new_decoded hnew
  refine ⟨hconfig, ?_⟩
  rw [WsReader.decoded, hconfig, hfragments, havailable, List.nil_append]

theorem Streaming.spare (h : Streaming config received events r) :
    Streaming config received events r.spare := by
  obtain ⟨havailable, hfragments, hconfig⟩ := r.spare_same
  refine ⟨hconfig.trans h.sizes, ?_⟩
  rw [WsReader.decoded, havailable, hfragments, hconfig]
  exact h.decoded

/-- More bytes go on where the decoder stopped, drained or not. -/
theorem Streaming.commit (h : Streaming config received events r) {chunk : Bytes}
    (hfits : chunk.length ≤ r.free) :
    Streaming config (received ++ chunk) events ((r.write chunk hfits).commit chunk.length) := by
  obtain ⟨havailable, hfragments, hconfig⟩ := r.commit_same hfits
  refine ⟨hconfig.trans h.sizes, ?_⟩
  have hwhole := decodeFrom_append config chunk _ none received (Nat.lt_succ_self _)
  have hheld := decodeFrom_append config chunk _ r.fragments r.available (Nat.lt_succ_self _)
  rw [h.decoded, WsReader.decoded, h.sizes] at hwhole
  rw [WsReader.decoded, havailable, hfragments, hconfig, h.sizes, hwhole, hheld]
  cases decodeFrom config r.fragments r.available with
  | mk more out => cases out <;> simp

/-- What polling gives is what the decoder finds next. -/
theorem Streaming.poll (h : Streaming config received events r) :
    match r.poll with
    | (.ok (some event), r') => Streaming config received (events ++ [event]) r'
    | (.ok none, r') => Streaming config received events r' ∧
        decodeFrom config none received = (events, .ok (r'.fragments, r'.available))
    | (.error err, _) => decodeFrom config none received = (events, .error err) := by
  have hnext := r.poll_eq
  have hfinds := WsReader.nextReady_finds (r.available.length + 1) r (Nat.lt_succ_self _)
  rw [WsReader.nextEvent] at hnext
  have hdecoded := h.decoded
  generalize r.poll = polled at hnext
  obtain ⟨found, r'⟩ := polled
  cases hready : r.nextReady (r.available.length + 1) with
  | error err =>
      rw [hready] at hnext hfinds
      cases found with
      | ok found => cases hnext
      | error err' =>
          cases hnext
          rw [show r.decoded = _ from hfinds] at hdecoded
          simpa using hdecoded
  | ok res =>
      obtain ⟨ready, r₁⟩ := res
      rw [hready] at hnext hfinds
      cases found with
      | error err' => cases hnext
      | ok found =>
          simp only [Except.map, bind, Except.bind, Except.ok.injEq, Prod.mk.injEq] at hnext
          obtain ⟨rfl, rfl⟩ := hnext
          cases ready with
          | none =>
              obtain ⟨hconfig, hnone⟩ := hfinds
              have hstops : r'.decoded = ([], .ok (r'.fragments, r'.available)) := by
                rw [WsReader.decoded, hconfig]
                exact decodeFrom_stops r.config _ _ _ (Nat.lt_succ_self _) hnone
              rw [hnone, List.append_nil] at hdecoded
              refine ⟨⟨hconfig.trans h.sizes, ?_⟩, hdecoded⟩
              rw [hstops, List.append_nil]
              exact hdecoded
          | some ready =>
              obtain ⟨hconfig, -, hsome⟩ := hfinds
              rw [hsome] at hdecoded
              exact ⟨hconfig.trans h.sizes, by simpa using hdecoded⟩

/-- What was decoded stays decoded when more comes. -/
theorem decodeFrom_prefix (more : Bytes) {out : Except WsError (Fragments × Bytes)}
    (h : decodeFrom config none received = (events, out)) :
    events <+: (decodeFrom config none (received ++ more)).1 := by
  rw [decodeFrom_append config more _ none received (Nat.lt_succ_self _), h]
  cases out with
  | error err => exact List.prefix_rfl
  | ok held => exact List.prefix_append ..

theorem decodeFrom_refused (more : Bytes) {err : WsError}
    (h : decodeFrom config none received = (events, .error err)) :
    decode config (received ++ more) = (events, some err) := by
  rw [decode, decodeFrom_append config more _ none received (Nat.lt_succ_self _), h]

theorem Streaming.events_prefix (h : Streaming config received events r) (more : Bytes) :
    events <+: (decode config (received ++ more)).1 := by
  have hpart := decodeFrom_prefix more h.decoded
  rw [decode]
  generalize decodeFrom config none (received ++ more) = whole at hpart
  obtain ⟨all, out⟩ := whole
  have hall := (List.prefix_append events r.decoded.1).trans hpart
  cases out <;> exact hall

end Streaming

namespace WsClient

variable {config : ReaderConfig} {stream : Bytes} {events : List WsEvent} {c : WsClient}

/-- A client behind the upgrade: what it has received, and what arrives yet, is the
stream behind the response. -/
def Follows (config : ReaderConfig) (stream : Bytes) (events : List WsEvent) (c : WsClient) : Prop :=
  ∃ received, received ++ arrived c.socket = stream ∧ Streaming config received events c.reader

theorem preload_streaming {r : WsReader} (hnew : WsReader.new config = .ok r) {leftover : Bytes}
    (hroom : leftover.length ≤ config.buffer) :
    Streaming config leftover [] (preload r leftover) := by
  have hfree : r.spare.free = config.buffer := by
    unfold WsReader.new at hnew
    split_ifs at hnew
    cases hnew
    simp [WsReader.spare, WsReader.empty, WsReader.free]
  have htake : leftover.take (min leftover.length r.spare.free) = leftover :=
    List.take_of_length_le (by omega)
  have hcommit := (Streaming.new hnew).spare.commit (show leftover.length ≤ r.spare.free by omega)
  rw [List.nil_append] at hcommit
  simp only [preload, htake]
  exact hcommit

/-- Reading the socket takes bytes from the stream to the reader. -/
theorem fill_follows (h : Follows config stream events c) :
    Follows config stream events c.fill.2 := by
  obtain ⟨received, hstream, hstreaming⟩ := h
  unfold fill
  dsimp only
  split_ifs with hfull
  · exact ⟨received, hstream, hstreaming.spare⟩
  · have harrived := arrived_readSocket c.reader.spare.free c.socket
    split
    · rename_i chunk socket hread
      rw [hread] at harrived
      split_ifs with hempty
      · refine ⟨received, ?_, hstreaming.spare⟩
        rw [← hstream, ← harrived, hempty]
        rfl
      · refine ⟨received ++ chunk, ?_, hstreaming.spare.commit _⟩
        rw [← hstream, ← harrived, List.append_assoc]
        rfl
    all_goals
      rename_i hread
      rw [hread] at harrived
      exact ⟨received, by rw [← hstream, ← harrived]; rfl, hstreaming.spare⟩

/-- An event that a client returns is the next one of the stream; there is none only
when everything received is decoded, and an error only where the stream has one. -/
theorem nextEvent_follows (h : Follows config stream events c) :
    match c.nextEvent with
    | (.ok (some event), c') => Follows config stream (events ++ [event]) c'
    | (.ok none, c') => Follows config stream events c' ∧
        (arrived c.socket = [] → decode config stream = (events, none))
    | (.error err, _) => ∃ violation, err = .webSocket violation ∧
        decode config stream = (events, some violation) := by
  obtain ⟨received, hstream, hstreaming⟩ := h
  have hpoll := hstreaming.poll
  rw [nextEvent]
  generalize c.reader.poll = polled at hpoll
  obtain ⟨found, reader⟩ := polled
  cases found with
  | error err => exact ⟨err, rfl, hstream ▸ decodeFrom_refused _ hpoll⟩
  | ok found =>
      cases found with
      | some event => exact ⟨received, hstream, hpoll⟩
      | none =>
          refine ⟨⟨received, hstream, hpoll.1⟩, fun hdone => ?_⟩
          rw [hdone, List.append_nil] at hstream
          rw [← hstream, decode, hpoll.2]

/-! ## §4 Sending -/

/-- The write loop puts the front of its bytes on the wire, all of them when it
succeeds. -/
theorem writeAll_prefix (bytes : Bytes) (writes : List Written) :
    (writeAll bytes writes).2 <+: bytes ∧
      ((writeAll bytes writes).1 = .ok () → (writeAll bytes writes).2 = bytes) := by
  fun_induction writeAll bytes writes with
  | case1 => simp
  | case2 => simp
  | case3 => simp
  | case4 b bytes n writes hn result wire heq ih =>
      rw [heq] at ih
      obtain ⟨⟨rest, hrest⟩, hall⟩ := ih
      refine ⟨⟨rest, ?_⟩, fun hok => ?_⟩
      · rw [List.append_assoc, hrest, List.take_append_drop]
      · rw [show wire = (b :: bytes).drop n from hall hok]
        exact List.take_append_drop n (b :: bytes)
  | case5 => simp
  | case6 b bytes writes late hlate ih => exact ih
  | case7 => simp

/-- Whether `send` accepts a frame. -/
def Sendable (opcode : Opcode) (payload : Bytes) : Prop :=
  payload.length ≤ maxSendPayload ∧ ¬ (opcode.isControl ∧ payload.length > maxControlPayload)

/-- The frame of a send. -/
def frameOf (opcode : Opcode) (payload : Bytes) (sending : Sending) : Bytes :=
  match sending.mask with
  | .ok mask => frameBytes opcode payload mask
  | .error _ => []

/-- The send buffer has room for every frame that is accepted. -/
def Roomy (c : WsClient) : Prop := c.out.length = maxSendPayload + maxClientHeader

theorem send_keeps (c : WsClient) (opcode : Opcode) (payload : Bytes) (sending : Sending) :
    (c.send opcode payload sending).2.socket = c.socket ∧
      (c.send opcode payload sending).2.reader = c.reader := by
  unfold send
  split_ifs
  · exact ⟨rfl, rfl⟩
  · split
    · exact ⟨rfl, rfl⟩
    · split
      · exact ⟨rfl, rfl⟩
      · split <;> exact ⟨rfl, rfl⟩

/-- A send writes the front of its frame, the whole frame when it succeeds, and nothing
when it is refused. -/
theorem send_spec (hroom : c.Roomy) (opcode : Opcode) (payload : Bytes) (sending : Sending) :
    (c.send opcode payload sending).2.Roomy ∧
    (∃ part, part <+: frameOf opcode payload sending ∧
      (c.send opcode payload sending).2.wire = c.wire ++ part ∧
      ((c.send opcode payload sending).1 = .ok () →
        Sendable opcode payload ∧ part = frameOf opcode payload sending) ∧
      (¬ Sendable opcode payload →
        part = [] ∧ (c.send opcode payload sending).1 = .error (.webSocket .bufferTooSmall))) := by
  unfold send
  split_ifs with hrefused
  · refine ⟨hroom, [], List.nil_prefix, by simp, by simp, fun _ => ⟨rfl, rfl⟩⟩
  have hsendable : Sendable opcode payload := by
    unfold Sendable
    simp only [not_or, not_lt] at hrefused
    exact hrefused
  have hfits : frameLength payload.length ≤ c.out.length := by
    have hpayload := hsendable.1
    rw [hroom, frameLength]
    rw [maxSendPayload] at hpayload ⊢
    rw [maxClientHeader]
    split_ifs <;> omega
  cases hmask : sending.mask with
  | error text =>
      exact ⟨hroom, [], List.nil_prefix, by simp, by simp, fun h => absurd hsendable h⟩
  | ok mask =>
      have hpayload : payload.length < 2 ^ 63 := by
        have := hsendable.1
        rw [maxSendPayload] at this
        omega
      have hout : c.out.length < 2 ^ 63 := by rw [hroom]; decide
      have hlen := length_frameBytes opcode payload mask
      have hframe : frameOf opcode payload sending = frameBytes opcode payload mask := by
        rw [frameOf, hmask]
      have hkept : (frameBytes opcode payload mask ++
          c.out.drop (frameLength payload.length)).length = c.out.length := by
        rw [List.length_append, hlen, List.length_drop]
        omega
      have htake : (frameBytes opcode payload mask ++ c.out.drop (frameLength payload.length)).take
          (frameLength payload.length) = frameBytes opcode payload mask := by
        rw [← hlen, List.take_left]
      simp only [encodeClientFrame_room mask hsendable.2 hpayload hout hfits, htake, hframe]
      obtain ⟨hpart, hall⟩ := writeAll_prefix (frameBytes opcode payload mask) sending.writes
      generalize writeAll (frameBytes opcode payload mask) sending.writes = result at hpart hall
      obtain ⟨written, wire⟩ := result
      cases written with
      | error err =>
          exact ⟨hkept.trans hroom, wire, hpart, rfl, by simp,
            fun h => absurd hsendable h⟩
      | ok u =>
          exact ⟨hkept.trans hroom, wire, hpart, rfl,
            fun _ => ⟨hsendable, hall rfl⟩, fun h => absurd hsendable h⟩

/-! ## §5 Runs -/

/-- A call of a connected client. -/
inductive Call where
  | fill
  | nextEvent
  | send (opcode : Opcode) (payload : Bytes) (sending : Sending)
  deriving Repr

/-- What a call does: the event that it returns, if any, and the client behind it. -/
def call (c : WsClient) : Call → Except NetError (Option WsEvent) × WsClient
  | .fill => (c.fill.1.map fun _ => none, c.fill.2)
  | .nextEvent => c.nextEvent
  | .send opcode payload sending =>
      ((c.send opcode payload sending).1.map fun _ => none, (c.send opcode payload sending).2)

/-- What calls did: those that succeeded, the events that they returned, the call that
failed, if any, and the client behind them. -/
structure Run where
  done : List Call
  events : List WsEvent
  failed : Option (Call × NetError)
  client : WsClient
  deriving Repr

/-- Calls one after the other, until one fails. -/
def run (c : WsClient) : List Call → Run
  | [] => ⟨[], [], none, c⟩
  | call :: calls =>
      match c.call call with
      | (.error err, c) => ⟨[], [], some (call, err), c⟩
      | (.ok found, c) =>
          let rest := c.run calls
          { rest with done := call :: rest.done, events := found.toList ++ rest.events }

/-- The frame that a call sends. -/
def Call.frame : Call → Bytes
  | .send opcode payload sending => frameOf opcode payload sending
  | _ => []

/-- The frames of calls. -/
def framesOf (calls : List Call) : Bytes := calls.flatMap Call.frame

theorem run_ok {call : Call} {found : Option WsEvent} {c' : WsClient} {calls : List Call}
    (h : c.call call = (.ok found, c')) :
    c.run (call :: calls) = { c'.run calls with
      done := call :: (c'.run calls).done
      events := found.toList ++ (c'.run calls).events } := by
  rw [run, h]

theorem run_error {call : Call} {err : NetError} {c' : WsClient} {calls : List Call}
    (h : c.call call = (.error err, c')) :
    c.run (call :: calls) = ⟨[], [], some (call, err), c'⟩ := by
  rw [run, h]

/-- What one call keeps: the next event is that of the stream. -/
theorem call_follows (h : Follows config stream events c) (call : Call) :
    match c.call call with
    | (.ok found, c') => Follows config stream (events ++ found.toList) c'
    | (.error err, c') =>
        (call = .nextEvent ∧ ∃ violation, err = .webSocket violation ∧
          decode config stream = (events, some violation)) ∨
        (call ≠ .nextEvent ∧ Follows config stream events c') := by
  cases call with
  | fill =>
      have hfill := fill_follows h
      simp only [WsClient.call]
      cases c.fill.1 with
      | ok n => simpa [Except.map] using hfill
      | error err => exact .inr ⟨by simp, hfill⟩
  | nextEvent =>
      have hnext := nextEvent_follows h
      simp only [WsClient.call]
      generalize c.nextEvent = result at hnext
      obtain ⟨found, c'⟩ := result
      cases found with
      | error err => exact .inl ⟨trivial, hnext⟩
      | ok found =>
          cases found with
          | none => simpa using hnext.1
          | some event => exact hnext
  | send opcode payload sending =>
      obtain ⟨received, hstream, hstreaming⟩ := h
      have hsame : (c.send opcode payload sending).2.socket = c.socket ∧
          (c.send opcode payload sending).2.reader = c.reader := send_keeps c opcode payload sending
      have hfollows : Follows config stream events (c.send opcode payload sending).2 :=
        ⟨received, by rw [hsame.1]; exact hstream, by rw [hsame.2]; exact hstreaming⟩
      simp only [WsClient.call]
      cases (c.send opcode payload sending).1 with
      | ok u => simpa [Except.map] using hfollows
      | error err => exact .inr ⟨by simp, hfollows⟩

/-- What one call puts on the wire. -/
theorem call_wire (hroom : c.Roomy) (call : Call) :
    (c.call call).2.Roomy ∧ ∃ part,
      part <+: call.frame ∧
      (c.call call).2.wire = c.wire ++ part ∧
      ∀ found, (c.call call).1 = .ok found → part = framesOf [call] := by
  cases call with
  | fill =>
      have hsame : c.fill.2.out = c.out ∧ c.fill.2.wire = c.wire := by
        unfold fill
        dsimp only
        split_ifs
        · exact ⟨rfl, rfl⟩
        · split
          · split_ifs <;> exact ⟨rfl, rfl⟩
          all_goals exact ⟨rfl, rfl⟩
      refine ⟨?_, [], List.nil_prefix, ?_, fun _ _ => rfl⟩
      · rw [Roomy, WsClient.call, hsame.1]
        exact hroom
      · rw [WsClient.call, hsame.2, List.append_nil]
  | nextEvent => exact ⟨hroom, [], List.nil_prefix, (List.append_nil _).symm, fun _ _ => rfl⟩
  | send opcode payload sending =>
      obtain ⟨hroom', part, hfront, hwire, hok, -⟩ := send_spec hroom opcode payload sending
      refine ⟨hroom', part, hfront, hwire, fun found hfound => ?_⟩
      simp only [WsClient.call] at hfound
      have hsent : (c.send opcode payload sending).1 = .ok () := by
        cases hres : (c.send opcode payload sending).1 with
        | error err => simp [hres, Except.map] at hfound
        | ok u => rfl
      rw [(hok hsent).2]
      simp [framesOf, Call.frame]

/-- Over a run, the events returned are those of the stream, in order. -/
theorem run_follows (calls : List Call) : ∀ {c : WsClient} {events : List WsEvent},
    Follows config stream events c →
    (∀ err, (c.run calls).failed = some (.nextEvent, err) →
      ∃ violation, err = .webSocket violation ∧
        decode config stream = (events ++ (c.run calls).events, some violation)) ∧
    ((∀ err, (c.run calls).failed ≠ some (.nextEvent, err)) →
      Follows config stream (events ++ (c.run calls).events) (c.run calls).client) := by
  induction calls with
  | nil => intro c events h; exact ⟨by simp [run], fun _ => by simpa [run] using h⟩
  | cons call calls ih =>
      intro c events h
      have hcall := call_follows h call
      cases hresult : c.call call with
      | mk found c' =>
          rw [hresult] at hcall
          cases found with
          | ok found =>
              have hrest := ih hcall
              rw [run_ok hresult]
              simpa using hrest
          | error err =>
              rw [run_error hresult]
              rcases hcall with ⟨rfl, violation, rfl, hdecode⟩ | ⟨hne, hfollows⟩
              · refine ⟨fun e he => ?_, fun hnot => absurd rfl (hnot _)⟩
                cases he
                exact ⟨violation, rfl, by simpa using hdecode⟩
              · refine ⟨fun e he => ?_, fun _ => by simpa using hfollows⟩
                simp only [Option.some.injEq, Prod.mk.injEq] at he
                exact absurd he.1 hne

/-- Over a run, the wire gets the whole frames of the sends that succeeded, and the
front of the frame of one that failed. -/
theorem run_wire (calls : List Call) : ∀ {c : WsClient}, c.Roomy →
    ∃ part, (c.run calls).client.wire = c.wire ++ framesOf (c.run calls).done ++ part ∧
      part <+: (c.run calls).failed.elim [] fun failed => failed.1.frame := by
  induction calls with
  | nil => intro c _; exact ⟨[], by simp [run, framesOf], List.nil_prefix⟩
  | cons call calls ih =>
      intro c hroom
      have hcall := call_wire hroom call
      cases hresult : c.call call with
      | mk found c' =>
          rw [hresult] at hcall
          obtain ⟨hroom', part, hpart, hwire, hwhole⟩ := hcall
          cases found with
          | ok found =>
              obtain ⟨rest, hrest, hlast⟩ := ih hroom'
              rw [run_ok hresult]
              refine ⟨rest, ?_, hlast⟩
              rw [hrest, hwire, hwhole _ rfl]
              simp [framesOf]
          | error err =>
              rw [run_error hresult]
              exact ⟨part, by simpa [framesOf] using hwire, hpart⟩

/-- What a client that connected is made of. -/
theorem connect_ok {sha1 : Bytes → Vector UInt8 20} {url : Url} {opening : Opening}
    (hconnect : connect sha1 url config opening = .ok c) :
    ∃ random n seen rest reader, opening.random = .ok random ∧
      readUpgrade (Handshake.new sha1 random) [] opening.socket = .ok (n, seen, rest) ∧
      WsReader.new config = .ok reader ∧
      c = {
        socket := rest
        reader := preload reader (seen.drop n)
        out := List.replicate (maxSendPayload + maxClientHeader) 0
        wire := (Handshake.new sha1 random).writeRequest url.hostHeader url.path } := by
  unfold connect at hconnect
  cases hopened : opening.opened with
  | error err => simp [hopened, bind, Except.bind] at hconnect
  | ok u =>
  cases hrandom : opening.random with
  | error err => simp [hopened, hrandom, bind, Except.bind, Except.mapError] at hconnect
  | ok random =>
  cases hrequested : opening.requested with
  | error err =>
      simp [hopened, hrandom, hrequested, bind, Except.bind, Except.mapError] at hconnect
  | ok u =>
  cases hread : readUpgrade (Handshake.new sha1 random) [] opening.socket with
  | error err =>
      simp [hopened, hrandom, hrequested, hread, bind, Except.bind, Except.mapError] at hconnect
  | ok found =>
  obtain ⟨n, seen, rest⟩ := found
  cases hnew : WsReader.new config with
  | error err =>
      simp [hopened, hrandom, hrequested, hread, hnew, bind, Except.bind, Except.mapError] at hconnect
  | ok reader =>
  cases hnonblocking : opening.nonblocking with
  | error err =>
      simp [hopened, hrandom, hrequested, hread, hnew, hnonblocking, bind, Except.bind,
        Except.mapError] at hconnect
  | ok u =>
  simp only [hopened, hrandom, hrequested, hread, hnew, hnonblocking, bind, Except.bind,
    Except.mapError, pure, Except.pure, Except.ok.injEq] at hconnect
  exact ⟨random, n, seen, rest, reader, rfl, hread, rfl, hconnect.symm⟩

/-- A client that connected wrote the upgrade request. -/
theorem connect_wire {sha1 : Bytes → Vector UInt8 20} {url : Url} {opening : Opening}
    (hconnect : connect sha1 url config opening = .ok c) :
    ∃ random, opening.random = .ok random ∧ c.Roomy ∧
      c.wire = (Handshake.new sha1 random).writeRequest url.hostHeader url.path := by
  obtain ⟨random, n, seen, rest, reader, hrandom, -, -, rfl⟩ := connect_ok hconnect
  exact ⟨random, hrandom, by simp [Roomy], rfl⟩

/-- A client whose buffer holds what was read behind the upgrade response stands there. -/
theorem connect_follows {sha1 : Bytes → Vector UInt8 20} {url : Url} {opening : Opening}
    (hconnect : connect sha1 url config opening = .ok c)
    (hbuffer : upgradeChunk ≤ config.buffer + 1) :
    ∃ random n, opening.random = .ok random ∧
      (Handshake.new sha1 random).parseResponse (arrived opening.socket) = .ok (some n) ∧
      Follows config ((arrived opening.socket).drop n) [] c := by
  obtain ⟨random, n, seen, rest, reader, hrandom, hread, hnew, rfl⟩ := connect_ok hconnect
  obtain ⟨hparse, harrived, hle, hshort⟩ := readUpgrade_ok hread
  have hroom : (seen.drop n).length ≤ config.buffer := by
    simp
    omega
  have hpreload := preload_streaming hnew hroom
  refine ⟨random, n, hrandom, hparse, ⟨seen.drop n, ?_, hpreload⟩⟩
  rw [← harrived, List.drop_append_of_le_length hle]

end WsClient

/-! ### A connection -/

/-- The digest of the key of RFC 6455's example. -/
def sampleDigest : Vector UInt8 20 :=
  #v[0xb3, 0x7a, 0x4f, 0x2c, 0xc0, 0x62, 0x4f, 0x16, 0x90, 0xf6, 0x46, 0x06, 0xcf, 0x38, 0x59,
    0x45, 0xb2, 0xbe, 0xc4, 0xea]

/-- The random bytes of RFC 6455's example: "the sample nonce". -/
def sampleRandom : Vector UInt8 16 :=
  #v[116, 104, 101, 32, 115, 97, 109, 112, 108, 101, 32, 110, 111, 110, 99, 101]

/-- A response in two pieces, with a ping and the front of a text frame behind it. -/
def sampleOpening : Opening where
  opened := .ok ()
  random := .ok sampleRandom
  requested := .ok ()
  socket := [
    .bytes (ascii "HTTP/1.1 101 Switching Protocols\r\nupgrade: WebSocket\r\nConnection: keep-al"),
    .interrupted,
    .bytes (ascii "ive, Upgrade\r\nSec-WebSocket-Accept: s3pPLMBiTxaQ9kYGzzhZRbK+xOo=\r\n\r\n" ++
      [0x89, 2, 104, 105, 0x81, 2, 97]),
    .bytes [98]]
  nonblocking := .ok ()

def sampleConfig : ReaderConfig := ⟨1024, 256, 256⟩

def sampleUrl : Url := ⟨.wss, ascii "stream.example", 443, ascii "/stream"⟩

theorem sampleOpening_flowing : Flowing sampleOpening.socket := by
  intro arrival h
  simp only [sampleOpening, List.mem_cons, List.not_mem_nil, or_false] at h
  rcases h with rfl | rfl | rfl | rfl
  · exact .inr ⟨_, by decide, rfl⟩
  · exact .inl rfl
  · exact .inr ⟨_, by simp, rfl⟩
  · exact .inr ⟨_, by decide, rfl⟩

/-- Two polls, and a read between them. -/
def sampleCalls : List WsClient.Call := [.nextEvent, .fill, .nextEvent]

theorem sampleOpening_connects :
    ∃ c, WsClient.connect (fun _ => sampleDigest) sampleUrl sampleConfig sampleOpening = .ok c ∧
      (c.run sampleCalls).events = [.ping [104, 105], .text [97, 98]] ∧
      (c.run sampleCalls).failed.isNone ∧ arrived (c.run sampleCalls).client.socket = [] ∧
      (c.run sampleCalls).client.nextEvent.1 = .ok none := by
  have h : ((WsClient.connect (fun _ => sampleDigest) sampleUrl sampleConfig
      sampleOpening).toOption.any fun c =>
        decide ((c.run sampleCalls).events = [.ping [104, 105], .text [97, 98]] ∧
          (c.run sampleCalls).failed.isNone ∧ arrived (c.run sampleCalls).client.socket = [] ∧
          (c.run sampleCalls).client.nextEvent.1 = .ok none)) = true := by
    decide +kernel
  cases hc : WsClient.connect (fun _ => sampleDigest) sampleUrl sampleConfig sampleOpening with
  | error err => rw [hc] at h; cases h
  | ok c =>
      rw [hc] at h
      exact ⟨c, rfl, of_decide_eq_true h⟩

section Connected

variable {sha1 : Bytes → Vector UInt8 20} {url : Url} {config : ReaderConfig} {opening : Opening}

/-- **The upgrade response decides, however it arrives.** On a connection that opens,
takes the request and goes on, the client connects exactly when what arrives begins
with a valid response, fails with the violation exactly when it is refused, and times
out exactly when it is incomplete. -/
theorem upgrade_decides_connection {random : Vector UInt8 16} (hopened : opening.opened = .ok ())
    (hrandom : opening.random = .ok random) (hrequested : opening.requested = .ok ())
    (hnonblocking : opening.nonblocking = .ok ()) (hflowing : Flowing opening.socket)
    (hsizes : config.maxFrame + maxServerHeader ≤ config.buffer) :
    ((∃ c, WsClient.connect sha1 url config opening = .ok c) ↔
      ∃ n, (Handshake.new sha1 random).parseResponse (arrived opening.socket) = .ok (some n)) ∧
    (∀ err, WsClient.connect sha1 url config opening = .error (.webSocket err) ↔
      (Handshake.new sha1 random).parseResponse (arrived opening.socket) = .error err) ∧
    (WsClient.connect sha1 url config opening = .error (.timeout "WebSocket handshake") ↔
      (Handshake.new sha1 random).parseResponse (arrived opening.socket) = .ok none) := by
  obtain ⟨hok, hrefused, hwaits⟩ := readUpgrade_flowing (h := Handshake.new sha1 random) hflowing
  have hnew : WsReader.new config = .ok (WsReader.empty config) := by
    rw [WsReader.new, if_neg (by omega)]
  have hconnect : WsClient.connect sha1 url config opening =
      (readUpgrade (Handshake.new sha1 random) [] opening.socket).map fun found => {
        socket := found.2.2
        reader := WsClient.preload (WsReader.empty config) (found.2.1.drop found.1)
        out := List.replicate (maxSendPayload + maxClientHeader) 0
        wire := (Handshake.new sha1 random).writeRequest url.hostHeader url.path } := by
    simp only [WsClient.connect, hopened, hrandom, hrequested, hnew, hnonblocking, bind, Except.bind,
      Except.mapError]
    cases readUpgrade (Handshake.new sha1 random) [] opening.socket <;> rfl
  rw [hconnect]
  cases hparse : (Handshake.new sha1 random).parseResponse (arrived opening.socket) with
  | error err =>
      rw [hrefused err hparse]
      simp [Except.map]
  | ok found =>
      cases found with
      | none =>
          rw [hwaits hparse]
          simp [Except.map]
      | some n =>
          obtain ⟨seen, rest, hread, -⟩ := hok n hparse
          rw [hread]
          simp [Except.map]

theorem sample_response_decides :
    (∃ c, WsClient.connect (fun _ => sampleDigest) sampleUrl sampleConfig sampleOpening = .ok c) ↔
      ∃ n, (Handshake.new (fun _ => sampleDigest) sampleRandom).parseResponse
        (arrived sampleOpening.socket) = .ok (some n) :=
  (upgrade_decides_connection rfl rfl rfl rfl sampleOpening_flowing (by decide)).1

/-- **A client sees the stream that its server sent.** Behind a connection whose
response was accepted, with a buffer that holds all that may come with the response, over
every run of reads, polls and sends: the events returned are, in order, those of the
reference decoder over the bytes behind the response, however they arrive; a violation is
reported where the decoder finds it; and when nothing is left to arrive and polling finds
no event, every event has been returned. -/
theorem client_sees_the_stream {c : WsClient} (calls : List WsClient.Call)
    (hconnect : WsClient.connect sha1 url config opening = .ok c)
    (hbuffer : upgradeChunk ≤ config.buffer + 1) :
    ∃ random n, opening.random = .ok random ∧
      (Handshake.new sha1 random).parseResponse (arrived opening.socket) = .ok (some n) ∧
      let decoded := decode config ((arrived opening.socket).drop n)
      (c.run calls).events <+: decoded.1 ∧
      (∀ err, (c.run calls).failed = some (.nextEvent, err) →
        ∃ violation, err = .webSocket violation ∧
          decoded = ((c.run calls).events, some violation)) ∧
      ((c.run calls).failed = none → arrived (c.run calls).client.socket = [] →
        (c.run calls).client.nextEvent.1 = .ok none → decoded = ((c.run calls).events, none)) := by
  obtain ⟨random, n, hrandom, hparse, hfollows⟩ := WsClient.connect_follows hconnect hbuffer
  obtain ⟨hfailed, hrun⟩ := WsClient.run_follows calls hfollows
  simp only [List.nil_append] at hfailed hrun
  refine ⟨random, n, hrandom, hparse, ?_, hfailed, ?_⟩
  · by_cases hpoll : ∃ err, (c.run calls).failed = some (.nextEvent, err)
    · obtain ⟨err, herr⟩ := hpoll
      obtain ⟨violation, -, hdecode⟩ := hfailed err herr
      rw [hdecode]
    · obtain ⟨received, hstream, hstreaming⟩ := hrun fun err herr => hpoll ⟨err, herr⟩
      rw [← hstream]
      exact hstreaming.events_prefix _
  · intro hdone hempty hnone
    have hnext := WsClient.nextEvent_follows (hrun (by simp [hdone]))
    generalize (c.run calls).client.nextEvent = result at hnext hnone
    obtain ⟨found, c'⟩ := result
    cases hnone
    exact hnext.2 hempty

/-- Behind the response of the sample connection, the client returns its ping and its
text frame, and nothing else is in the stream. -/
theorem sample_client_sees_its_stream :
    ∃ (c : WsClient) (n : Nat),
      WsClient.connect (fun _ => sampleDigest) sampleUrl sampleConfig sampleOpening = .ok c ∧
      (c.run sampleCalls).events = [.ping [104, 105], .text [97, 98]] ∧
      decode sampleConfig ((arrived sampleOpening.socket).drop n) =
        ([.ping [104, 105], .text [97, 98]], none) := by
  obtain ⟨c, hconnect, hevents, hnone, hempty, hpoll⟩ := sampleOpening_connects
  obtain ⟨random, n, -, -, -, -, hall⟩ := client_sees_the_stream sampleCalls hconnect (by decide)
  refine ⟨c, n, hconnect, hevents, ?_⟩
  rw [hall (Option.isNone_iff_eq_none.mp hnone) hempty hpoll, hevents]

/-- **The wire carries whole frames.** Behind a connection, over every run of reads,
polls and sends, the wire holds the upgrade request, the masked frames of the sends
that succeeded, one after the other, and at most the front of the frame of a send that
failed. -/
theorem client_writes_whole_frames {c : WsClient} (calls : List WsClient.Call)
    (hconnect : WsClient.connect sha1 url config opening = .ok c) :
    ∃ random, opening.random = .ok random ∧ ∃ part,
      (c.run calls).client.wire =
        (Handshake.new sha1 random).writeRequest url.hostHeader url.path ++
          WsClient.framesOf (c.run calls).done ++ part ∧
      part <+: (c.run calls).failed.elim [] fun failed => failed.1.frame := by
  obtain ⟨random, hrandom, hroom, hwire⟩ := WsClient.connect_wire hconnect
  obtain ⟨part, hwhole, hpart⟩ := WsClient.run_wire calls hroom
  rw [hwire] at hwhole
  exact ⟨random, hrandom, part, hwhole, hpart⟩

/-- A pong that does not fit in one write. -/
def samplePong : WsClient.Call :=
  .send .pong [104, 105] ⟨.ok #v[1, 2, 3, 4], [.wrote 3, .blocked false, .wrote 9], [.wrote 0]⟩

theorem sample_client_writes_whole_frames :
    ∃ (c : WsClient) (random : Vector UInt8 16) (part : Bytes),
      (c.run [.nextEvent, samplePong]).client.wire =
        (Handshake.new (fun _ => sampleDigest) random).writeRequest sampleUrl.hostHeader
          sampleUrl.path ++ WsClient.framesOf (c.run [.nextEvent, samplePong]).done ++ part := by
  obtain ⟨c, hconnect, -⟩ := sampleOpening_connects
  obtain ⟨random, -, part, hwire, -⟩ := client_writes_whole_frames [.nextEvent, samplePong] hconnect
  exact ⟨c, random, part, hwire⟩

end Connected

end Bowst.Venue
