/-
Bowst.L2.FeedTheorems — a synced book against the venue it follows.

A venue is a history of true books. A lossy feed hands the sync deltas and
snapshots of that history in any order, with any of them missing or repeated.

  §1 Origin  — every live book is one snapshot and the deltas applied since
               (`Origin`); its map is computed from those alone.
  §2 Venue   — faithful deltas and snapshots, and where a chain of faithful
               deltas ends.
  §3 Exact   — complete snapshots: the live book is the venue's, up to each
               side's horizon.
  §4 Depth   — snapshots cut to a depth: which prices the book knows, and when
               its best level is the venue's.
-/
import Bowst.L2.SyncTheorems

namespace Bowst.L2

open Bowst.Core Bowst.Lib

/-! ## §1 Origin -/

/-- Where a live book comes from: the snapshot last used and the deltas applied
since, in order. -/
structure Origin where
  seq : Nat
  bids : List Level
  asks : List Level
  deltas : List (SeqRange × List LevelUpdate)
  deriving DecidableEq, Repr

namespace Origin

/-- One side of the snapshot. -/
def listed (o : Origin) : Side → List Level
  | .buy => o.bids
  | .sell => o.asks

/-- The sequence number reached. -/
def last (o : Origin) : Nat := seqAfter o.seq o.deltas

/-- The levels of the snapshot with every update since set on top. -/
def map (o : Origin) : BookMap :=
  (BookMap.ofSnapshot o.bids o.asks).applyAll (updatesOf o.deltas)

/-- One more delta. -/
def push (o : Origin) (range : SeqRange) (updates : List LevelUpdate) : Origin :=
  { o with deltas := o.deltas ++ [(range, updates)] }

/-- The origin of the book after a call, from the sync before it. A used
snapshot starts a new origin with the buffered messages that end after it; a
delta in sequence extends it. Nothing reads it while the sync is not live. -/
def after (s : BookSync) (o : Option Origin) : SyncCall → Option Origin
  | .delta range updates =>
      match s.state with
      | .awaitingSnapshot => o
      | .live last =>
          if range.last ≤ last then o
          else if range.continues last then o.map fun o => o.push range updates
          else none
  | .snapshot seq bids asks =>
      match s.state with
      | .awaitingSnapshot => some ⟨seq, bids, asks, deltasOf s.pendingUpdates (kept seq s.pending)⟩
      | .live last =>
          if seq < last then o
          else some ⟨seq, bids, asks, deltasOf s.pendingUpdates (kept seq s.pending)⟩
  | .reset => none

/-- A run of calls that keeps the origin beside the sync. -/
def trace (s : BookSync × Option Origin) (call : SyncCall) : BookSync × Option Origin :=
  (call.run s.1, after s.1 s.2 call)

theorem trace_fst : ∀ (calls : List SyncCall) (s : BookSync × Option Origin),
    (calls.foldl trace s).1 = calls.foldl SyncCall.run s.1 := by
  intro calls
  induction calls with
  | nil => intro s; rfl
  | cons call calls ih => intro s; exact ih (trace s call)

end Origin

theorem updatesOf_append (xs ys : List (SeqRange × List LevelUpdate)) :
    updatesOf (xs ++ ys) = updatesOf xs ++ updatesOf ys := List.flatMap_append

theorem ContinuesFrom.push : ∀ {deltas : List (SeqRange × List LevelUpdate)} {seq : Nat},
    ContinuesFrom seq deltas → ∀ {range : SeqRange} (updates : List LevelUpdate),
    range.first ≤ seqAfter seq deltas + 1 → seqAfter seq deltas < range.last →
    ContinuesFrom seq (deltas ++ [(range, updates)]) := by
  intro deltas
  induction deltas with
  | nil => intro seq _ range updates hfirst hlast; exact ⟨hfirst, hlast, trivial⟩
  | cons d rest ih =>
      intro seq h range updates hfirst hlast
      exact ⟨h.1, h.2.1, ih h.2.2 updates hfirst hlast⟩

section Traced

-- `D` is what is known of every delta of a feed, `S` of every snapshot.
variable {D : SeqRange → List LevelUpdate → Prop} {S : Nat → List Level → List Level → Prop}

/-- What an origin is made of, and that the book means its map. -/
structure Origin.Explains (D : SeqRange → List LevelUpdate → Prop)
    (S : Nat → List Level → List Level → Prop) (o : Origin) (b : Book) : Prop where
  snapshot : S o.seq o.bids o.asks
  deltas : ∀ d ∈ o.deltas, D d.1 d.2
  continues : ContinuesFrom o.seq o.deltas
  refines : b.Refines o.map

/-- The invariant of a traced run: a live book is explained by its origin. -/
structure Traced (D : SeqRange → List LevelUpdate → Prop)
    (S : Nat → List Level → List Level → Prop) (s : BookSync × Option Origin) : Prop where
  inv : s.1.Inv D
  live : ∀ n, s.1.state = .live n →
    ∃ o, s.2 = some o ∧ n = o.last ∧ o.Explains D S s.1.internalBook

/-- What is known of a call's arguments. -/
def SyncCall.Meets (D : SeqRange → List LevelUpdate → Prop)
    (S : Nat → List Level → List Level → Prop) : SyncCall → Prop
  | .delta range updates => D range updates
  | .snapshot seq bids asks => S seq bids asks
  | .reset => True

theorem SyncCall.Meets.deltaIs {call : SyncCall} (h : call.Meets D S) : call.DeltaIs D := by
  cases call
  · exact h
  · trivial
  · trivial

variable (hD : ∀ range updates, D range updates → ∀ u ∈ updates, u.Valid)
variable (hS : ∀ seq bids asks, S seq bids asks → Book.ValidSide bids ∧ Book.ValidSide asks)

include hD in
theorem updatesOf_valid {deltas : List (SeqRange × List LevelUpdate)}
    (h : ∀ d ∈ deltas, D d.1 d.2) : ∀ u ∈ updatesOf deltas, u.Valid := by
  intro u hu
  obtain ⟨d, hd, hud⟩ := List.mem_flatMap.mp hu
  exact hD _ _ (h d hd) u hud

theorem deltasOf_kept {s : BookSync} (h : s.Inv D) (seq : Nat) :
    ∀ d ∈ deltasOf s.pendingUpdates (kept seq s.pending), D d.1 d.2 := by
  intro d hd
  obtain ⟨p, hp, rfl⟩ := List.mem_map.mp hd
  obtain ⟨old, hsplit, _, _⟩ := kept_split seq s.pending
  refine h.ordered.delivered p ?_
  rw [hsplit]
  exact List.mem_append_right _ hp

include hD in
/-- An applied delta extends the origin. -/
theorem Origin.Explains.push {o : Origin} {b b' : Book} {capacity : Nat} {range : SeqRange}
    {updates : List LevelUpdate} (h : o.Explains D S b) (hinv : b.Inv capacity)
    (hd : D range updates) (hfirst : range.first ≤ o.last + 1) (hlast : o.last < range.last)
    (happly : b.applyAll updates = (.ok (), b')) :
    (o.push range updates).last = range.last ∧ (o.push range updates).Explains D S b' := by
  have hmap : (o.push range updates).map = o.map.applyAll updates := by
    unfold Origin.push Origin.map
    rw [updatesOf_append, BookMap.applyAll, List.foldl_append]
    congr 1
    simp [updatesOf]
  refine ⟨by simp [Origin.push, Origin.last, seqAfter], h.snapshot, ?_,
    h.continues.push updates hfirst hlast, ?_⟩
  · intro d hmem
    rcases List.mem_append.mp hmem with hmem | hmem
    · exact h.deltas d hmem
    · rw [List.mem_singleton.mp hmem]
      exact hd
  · have hspec := (Book.applyAll_spec updates hinv h.refines (hD _ _ hd)).2
    rw [happly] at hspec
    rw [hmap]
    exact hspec

include hD hS in
/-- A used snapshot, with the buffer replayed onto it, is an origin. -/
theorem explains_of_used {s : BookSync} {b b' : Book} {seq n : Nat} {bids asks : List Level}
    (h : s.Inv D) (hs : S seq bids asks) (hload : s.internalBook.load bids asks = (.ok (), b))
    (hreplay : replayPending s.pendingUpdates s.pending b seq = .caughtUp b' n) :
    let o : Origin := ⟨seq, bids, asks, deltasOf s.pendingUpdates (kept seq s.pending)⟩
    n = o.last ∧ o.Explains D S b' := by
  obtain ⟨hbids, hasks⟩ := hS _ _ _ hs
  have hmeans := (Book.load_spec h.book hbids hasks).2
  have hinv := Book.load_inv h.book bids asks
  rw [hload] at hmeans hinv
  have hdeltas := deltasOf_kept h seq
  have happly := Book.applyAll_spec _ hinv hmeans (updatesOf_valid hD hdeltas)
  rcases replayPending_spec b seq h.ordered.chained with ⟨m, _, _, heq⟩ | ⟨hcont, heq⟩
  · rw [hreplay] at heq; cases heq
  · rw [hreplay] at heq
    split at heq
    · cases heq
    · rename_i book happly'
      rw [happly'] at happly
      cases heq
      exact ⟨rfl, hs, hdeltas, hcont, happly.2⟩

include hD hS in
/-- One call keeps the trace. -/
theorem Traced.step {s : BookSync × Option Origin} (h : Traced D S s) {call : SyncCall}
    (hcall : call.Meets D S) : Traced D S (Origin.trace s call) := by
  obtain ⟨s, o⟩ := s
  refine ⟨SyncCall.run_inv h.inv hcall.deltaIs, fun n hn => ?_⟩
  cases call with
  | delta range updates =>
      rcases (s.onDelta_step range updates).live h.inv hcall hn with
        ⟨hstate, hold, hbook⟩ | ⟨last, hstate, hnew, hfirst, rfl, happly⟩
      · have horigin : (Origin.trace (s, o) (.delta range updates)).2 = o := by
          simp [Origin.trace, Origin.after, hstate, hold]
        obtain ⟨o', ho, hlast, hexp⟩ := h.live n hstate
        refine ⟨o', horigin.trans ho, hlast, ?_⟩
        rw [show (Origin.trace (s, o) (.delta range updates)).1.internalBook = s.internalBook
          from hbook]
        exact hexp
      · obtain ⟨o', ho, hlast, hexp⟩ := h.live last hstate
        have hcont := (range.continues_iff last).mpr hfirst
        have horigin : (Origin.trace (s, o) (.delta range updates)).2 =
            some (o'.push range updates) := by
          simp only at ho
          simp [Origin.trace, Origin.after, hstate, Nat.not_le.mpr hnew, hcont, ho]
        obtain ⟨hend, hexp'⟩ := hexp.push hD h.inv.book hcall (hlast ▸ hfirst) (hlast ▸ hnew)
          happly
        exact ⟨_, horigin, hend.symm, hexp'⟩
  | snapshot seq bids asks =>
      rcases (s.onSnapshot_step seq bids asks).live hn with
        ⟨hstate, hold, heq⟩ | ⟨b, hfresh, hload, hreplay⟩
      · have horigin : (Origin.trace (s, o) (.snapshot seq bids asks)).2 = o := by
          simp [Origin.trace, Origin.after, hstate, hold]
        obtain ⟨o', ho, hlast, hexp⟩ := h.live n hstate
        refine ⟨o', horigin.trans ho, hlast, ?_⟩
        rw [show (Origin.trace (s, o) (.snapshot seq bids asks)).1 = s from heq]
        exact hexp
      · have horigin : (Origin.trace (s, o) (.snapshot seq bids asks)).2 =
            some ⟨seq, bids, asks, deltasOf s.pendingUpdates (kept seq s.pending)⟩ := by
          cases hstate : s.state with
          | awaitingSnapshot => simp [Origin.trace, Origin.after, hstate]
          | live last => simp [Origin.trace, Origin.after, hstate, hfresh last hstate]
        obtain ⟨hlast, hexp⟩ := explains_of_used hD hS h.inv hcall hload hreplay
        exact ⟨_, horigin, hlast, hexp⟩
  | reset => cases hn

include hD hS in
/-- Every run of a new sync keeps the trace. -/
theorem Traced.run {config : SyncConfig} {s₀ : BookSync} (hnew : BookSync.new config = .ok s₀)
    (calls : List SyncCall) (hcalls : ∀ call ∈ calls, call.Meets D S) :
    Traced D S (calls.foldl Origin.trace (s₀, none)) := by
  obtain ⟨hinv, _, hstate⟩ := BookSync.new_inv (D := D) hnew
  refine List.foldlRecOn calls Origin.trace (motive := Traced D S) ⟨hinv, ?_⟩
    fun s h call hcall => h.step hD hS (hcalls call hcall)
  intro n hn
  rw [hstate] at hn
  cases hn

end Traced

/-! ## §2 Venue -/

/-- A venue: the true book at every sequence number, uncrossed, with positive
prices and quantities. -/
structure Venue where
  books : Nat → BookMap
  positive : ∀ n side p q, books n side p = some q → 0 < p ∧ 0 < q
  uncrossed : ∀ n bid ask q q', books n .buy bid = some q → books n .sell ask = some q' → bid < ask

namespace Venue

/-- A delta that says what happened: from every book it may be applied to, it
leads to the book at its end. -/
def FaithfulDelta (v : Venue) (range : SeqRange) (updates : List LevelUpdate) : Prop :=
  (∀ u ∈ updates, u.Valid) ∧
    ∀ m, range.first ≤ m + 1 → m ≤ range.last → (v.books m).applyAll updates = v.books range.last

/-- A list of exactly the levels of a side. -/
def Lists (m : PriceMap) (levels : List Level) : Prop :=
  (levels.map Level.price).Nodup ∧ ∀ p q, ⟨p, q⟩ ∈ levels ↔ m p = some q

/-- A complete snapshot. -/
def FaithfulSnapshot (v : Venue) (n : Nat) (bids asks : List Level) : Prop :=
  Lists (v.books n .buy) bids ∧ Lists (v.books n .sell) asks

/-- The best `min(limit, count)` levels of a side: true levels, the whole side
if there are fewer than `limit`, and nothing left out that is better than, or
as good as, a level listed. -/
structure ListsBest (m : PriceMap) (side : Side) (limit : Nat) (levels : List Level) : Prop where
  nodup : (levels.map Level.price).Nodup
  true_level : ∀ level ∈ levels, m level.price = some level.qty
  length : levels.length ≤ limit
  all : levels.length < limit → ∀ p q, m p = some q → ⟨p, q⟩ ∈ levels
  best : ∀ p q, m p = some q → ⟨p, q⟩ ∉ levels →
    ∀ level ∈ levels, side.isMoreAggressive level.price p = true

/-- A snapshot cut to some depth of at least one level per side. -/
def DepthSnapshot (v : Venue) (n : Nat) (bids asks : List Level) : Prop :=
  ∃ limit, 1 ≤ limit ∧ ListsBest (v.books n .buy) .buy limit bids ∧
    ListsBest (v.books n .sell) .sell limit asks

variable {v : Venue}

/-- Faithful deltas in sequence lead from book to book. -/
theorem applyAll_chain : ∀ {deltas : List (SeqRange × List LevelUpdate)} {seq : Nat},
    ContinuesFrom seq deltas → (∀ d ∈ deltas, v.FaithfulDelta d.1 d.2) →
    (v.books seq).applyAll (updatesOf deltas) = v.books (seqAfter seq deltas) := by
  intro deltas
  induction deltas with
  | nil => intro seq _ _; rfl
  | cons d rest ih =>
      intro seq hcont hfaithful
      have hd := (hfaithful d (List.mem_cons_self ..)).2 seq hcont.1 (le_of_lt hcont.2.1)
      have hsplit : updatesOf (d :: rest) = d.2 ++ updatesOf rest := rfl
      rw [hsplit, BookMap.applyAll, List.foldl_append]
      have hrest := ih hcont.2.2 fun d' hd' => hfaithful d' (List.mem_cons_of_mem _ hd')
      rw [← hd] at hrest
      exact hrest

theorem Lists.validSide {n : Nat} {side : Side} {levels : List Level}
    (h : Lists (v.books n side) levels) : Book.ValidSide levels :=
  ⟨h.1, fun level hl => v.positive n side _ _ ((h.2 level.price level.qty).mp hl)⟩

theorem Lists.ofLevels_eq {m : PriceMap} {levels : List Level} (h : Lists m levels) :
    PriceMap.ofLevels levels = m := by
  funext p
  refine Ladder.eq_iff_some_iff.mpr fun q => ?_
  rw [Ladder.ofLevels_eq_some_iff fun a ha b hb hab => List.inj_on_of_nodup_map h.1 ha hb hab]
  exact h.2 p q

theorem ListsBest.validSide {n limit : Nat} {side : Side} {levels : List Level}
    (h : ListsBest (v.books n side) side limit levels) : Book.ValidSide levels :=
  ⟨h.nodup, fun level hl => v.positive n side _ _ (h.true_level level hl)⟩

theorem ListsBest.ofLevels_eq_some_iff {m : PriceMap} {side : Side} {limit : Nat}
    {levels : List Level} (h : ListsBest m side limit levels) (p : Price) (q : Qty) :
    PriceMap.ofLevels levels p = some q ↔ ⟨p, q⟩ ∈ levels :=
  Ladder.ofLevels_eq_some_iff (fun _ ha _ hb hab => List.inj_on_of_nodup_map h.nodup ha hb hab) p q

/-- A book whose levels are the venue's cannot be crossed. -/
theorem isCrossed_eq_false {b : Book} {n capacity : Nat} {t : BookMap} (hinv : b.Inv capacity)
    (href : b.Refines t) (htrue : ∀ side p q, t side p = some q → v.books n side p = some q) :
    b.isCrossed = false := by
  have hbest : ∀ (side : Side) (level : Level), (b.side side).best = some level →
      v.books n side level.price = some level.qty := by
    intro side level h
    exact htrue _ _ _ (Ladder.best_isBest (hinv.ladder side) (href side) h).1
  unfold Book.isCrossed
  cases hbid : b.bestBid with
  | none => rfl
  | some bid =>
      cases hask : b.bestAsk with
      | none => rfl
      | some ask =>
          have hlt := v.uncrossed n _ _ _ _ (hbest .buy bid hbid) (hbest .sell ask hask)
          exact decide_eq_false (not_le.mpr hlt)

end Venue

/-! ## §3 Exact -/

namespace Venue

variable {v : Venue}

/-- A call with arguments the venue stands behind. -/
def Faithful (v : Venue) (call : SyncCall) : Prop := call.Meets v.FaithfulDelta v.FaithfulSnapshot

theorem FaithfulSnapshot.ofSnapshot_eq {n : Nat} {bids asks : List Level}
    (h : v.FaithfulSnapshot n bids asks) : BookMap.ofSnapshot bids asks = v.books n := by
  funext side
  cases side
  · exact h.1.ofLevels_eq
  · exact h.2.ofLevels_eq

/-- The map of an origin of faithful parts is the venue's book. -/
theorem explains_map_eq {o : Origin} {b : Book}
    (h : o.Explains v.FaithfulDelta v.FaithfulSnapshot b) : o.map = v.books o.last := by
  rw [Origin.map, FaithfulSnapshot.ofSnapshot_eq h.snapshot]
  exact applyAll_chain h.continues h.deltas

theorem faithfulDelta_valid (range : SeqRange) (updates : List LevelUpdate)
    (h : v.FaithfulDelta range updates) : ∀ u ∈ updates, u.Valid := h.1

theorem faithfulSnapshot_valid (seq : Nat) (bids asks : List Level)
    (h : v.FaithfulSnapshot seq bids asks) : Book.ValidSide bids ∧ Book.ValidSide asks :=
  ⟨h.1.validSide, h.2.validSide⟩

/-- A faithful delta in sequence is neither invalid nor crosses the book. -/
theorem delta_no_error {s : BookSync} {o : Option Origin}
    (h : Traced v.FaithfulDelta v.FaithfulSnapshot (s, o)) {range : SeqRange}
    {updates : List LevelUpdate} (hd : v.FaithfulDelta range updates) {res s'}
    (hstep : s.DeltaStep range updates res s') :
    (∀ bid ask, res ≠ .error (.crossed bid ask)) ∧ ∀ err, res ≠ .error (.book err) := by
  have hspec : ∀ last, s.state = .live last → last < range.last → range.first ≤ last + 1 →
      (s.internalBook.applyAll updates).1 = .ok () ∧
        (s.internalBook.applyAll updates).2.Refines (v.books range.last) := by
    intro last hstate hnew hfirst
    obtain ⟨o', _, hlast, hexp⟩ := h.live last hstate
    have href := hexp.refines
    rw [explains_map_eq hexp, ← hlast] at href
    have happly := Book.applyAll_spec updates h.inv.book href hd.1
    rw [hd.2 last hfirst (le_of_lt hnew)] at happly
    exact happly
  have hinv := Book.applyAll_inv updates h.inv.book
  cases hstep with
  | invalid hstate hnew hfirst happly =>
      have := (hspec _ hstate hnew hfirst).1
      rw [happly] at this
      cases this
  | crossed hstate hnew hfirst happly hcrossed =>
      have href := (hspec _ hstate hnew hfirst).2
      rw [happly] at href hinv
      rw [isCrossed_eq_false hinv href fun _ _ _ h => h] at hcrossed
      cases hcrossed
  | _ => exact ⟨nofun, nofun⟩

/-- A faithful snapshot loads, and the buffer goes onto it without an error. -/
theorem snapshot_no_error {s : BookSync} (h : s.Inv v.FaithfulDelta) {seq : Nat}
    {bids asks : List Level} (hs : v.FaithfulSnapshot seq bids asks) {res s'}
    (hstep : s.SnapshotStep seq bids asks res s') :
    (∀ bid ask, res ≠ .error (.crossed bid ask)) ∧ ∀ err, res ≠ .error (.book err) := by
  obtain ⟨hbids, hasks⟩ := faithfulSnapshot_valid seq bids asks hs
  obtain ⟨hok, hmeans⟩ := Book.load_spec h.book hbids hasks
  have hinv := Book.load_inv h.book bids asks
  cases hstep with
  | refused hfresh hload => rw [hload] at hok; cases hok
  | invalid hfresh hload hreplay =>
      rw [hload] at hmeans hinv
      have happly := (Book.applyAll_spec _ hinv hmeans
        (updatesOf_valid faithfulDelta_valid (deltasOf_kept h seq))).1
      rcases replayPending_spec _ seq h.ordered.chained with ⟨m, _, _, heq⟩ | ⟨_, heq⟩
      · rw [hreplay] at heq; cases heq
      · rw [hreplay] at heq
        split at heq
        · rename_i happly'
          rw [happly'] at happly
          cases happly
        · cases heq
  | crossed hfresh hload hreplay hcrossed =>
      obtain ⟨_, hexp⟩ := explains_of_used faithfulDelta_valid faithfulSnapshot_valid h hs hload
        hreplay
      rw [hload] at hinv
      have hinv' := BookSync.replayPending_inv _ hinv hreplay
      rw [isCrossed_eq_false (v := v) hinv' hexp.refines
        (by rw [explains_map_eq hexp]; exact fun _ _ _ h => h)] at hcrossed
      cases hcrossed
  | _ => exact ⟨nofun, nofun⟩

end Venue

/-- **Book sync is exact on a lossy feed.** Whatever the order and losses of
faithful deltas and complete snapshots, a live book at `n` agrees with the
venue's book at every price not strictly worse than each side's horizon, holds
nothing beyond it, and shows the venue's best levels; and no faithful call
fails with a crossed or an invalid book. -/
theorem sync_exact_on_lossy_feed (v : Venue) (config : SyncConfig) (s₀ : BookSync)
    (hnew : BookSync.new config = .ok s₀) (calls : List SyncCall)
    (hcalls : ∀ call ∈ calls, v.Faithful call) :
    let s := calls.foldl SyncCall.run s₀
    (∀ n, s.lastSeq = some n → ∃ b, s.book = some b ∧ ∀ side,
      (∀ p, (∀ h, (b.side side).horizon = some h → side.isMoreAggressive h p = false) →
        (b.side side).qtyAt p = v.books n side p) ∧
      (∀ level ∈ (b.side side).levels, ∀ h, (b.side side).horizon = some h →
        side.isMoreAggressive h level.price = false) ∧
      (∀ level, (b.side side).best = some level → (v.books n side).IsBest side level)) ∧
    (∀ call : SyncCall, v.Faithful call →
      (∀ bid ask, call.error? s ≠ some (.crossed bid ask)) ∧
        ∀ err, call.error? s ≠ some (.book err)) := by
  have htraced := Traced.run Venue.faithfulDelta_valid Venue.faithfulSnapshot_valid hnew calls hcalls
  have hfst := Origin.trace_fst calls (s₀, none)
  generalize calls.foldl Origin.trace (s₀, none) = traced at htraced hfst
  obtain ⟨s', o⟩ := traced
  simp only at hfst
  intro s
  change s' = s at hfst
  subst hfst
  refine ⟨?_, ?_⟩
  · intro n hn
    have hstate := BookSync.state_of_lastSeq hn
    obtain ⟨o', _, hlast, hexp⟩ := htraced.live n hstate
    have href := hexp.refines
    rw [Venue.explains_map_eq hexp, ← hlast] at href
    have hbook : s.internalBook.Inv s.config.levelsPerSide := htraced.inv.book
    refine ⟨s.internalBook, by simp [BookSync.book, hstate], fun side => ?_⟩
    have hcover : ∀ p, (s.internalBook.side side).isBeyondHorizon p = false ↔
        ∀ h, (s.internalBook.side side).horizon = some h → side.isMoreAggressive h p = false := by
      intro p
      rw [Ladder.isBeyondHorizon_eq_false_iff, hbook.sided side]
      simp only [Side.isMoreAggressive_eq_false_iff]
    refine ⟨fun p hp => href side p ((hcover p).mpr hp),
      fun level hl => (hcover level.price).mp ((hbook.ladder side).known level hl), ?_⟩
    intro level hbest
    have := Ladder.best_isBest (hbook.ladder side) (href side) hbest
    rwa [hbook.sided side] at this
  · intro call hcall
    cases call with
    | delta range updates =>
        have herr := Venue.delta_no_error htraced hcall (s.onDelta_step range updates)
        simp only [SyncCall.error?]
        cases hres : (s.onDelta range updates).1 with
        | ok outcome => simp
        | error err => simpa [hres] using herr
    | snapshot seq bids asks =>
        have herr := Venue.snapshot_no_error htraced.inv hcall (s.onSnapshot_step seq bids asks)
        simp only [SyncCall.error?]
        cases hres : (s.onSnapshot seq bids asks).1 with
        | ok outcome => simp
        | error err => simpa [hres] using herr
    | reset => simp [SyncCall.error?]

/-- A bid side losing its best level, then gaining one further down. -/
def drainBids : Nat → List Level
  | 0 | 1 => [⟨100, 1⟩, ⟨99, 1⟩]
  | 2 => [⟨99, 1⟩]
  | _ => [⟨99, 1⟩, ⟨98, 1⟩]

theorem drainBids_positive (n : Nat) : ∀ level ∈ drainBids n, 0 < level.price ∧ 0 < level.qty := by
  unfold drainBids
  split <;> simp

theorem drainBids_nodup (n : Nat) : ((drainBids n).map Level.price).Nodup := by
  unfold drainBids
  split <;> simp

theorem drainBids_map (n : Nat) (p : Price) (q : Qty) :
    PriceMap.ofLevels (drainBids n) p = some q ↔ ⟨p, q⟩ ∈ drainBids n :=
  Ladder.ofLevels_eq_some_iff
    (fun _ ha _ hb h => List.inj_on_of_nodup_map (drainBids_nodup n) ha hb h) p q

/-- A venue with those bids and no asks. -/
def drainVenue : Venue where
  books n side := match side with
    | .buy => .ofLevels (drainBids n)
    | .sell => .empty
  positive := by
    intro n side p q h
    cases side
    · exact drainBids_positive n _ ((drainBids_map n p q).mp h)
    · cases h
  uncrossed := by
    intro n bid ask q q' _ h
    cases h

theorem drainVenue_snapshot (n : Nat) : drainVenue.FaithfulSnapshot n (drainBids n) [] := by
  refine ⟨⟨drainBids_nodup n, fun p q => (drainBids_map n p q).symm⟩, by simp, ?_⟩
  intro p q
  simp [drainVenue, PriceMap.empty]

/-- The best bid of 100 goes. -/
def drainDelta₂ : SeqRange × List LevelUpdate := (⟨2, 2, by decide, by decide⟩, [⟨.buy, 100, 0⟩])

/-- A bid of 98 appears. -/
def drainDelta₃ : SeqRange × List LevelUpdate := (⟨3, 3, by decide, by decide⟩, [⟨.buy, 98, 1⟩])

theorem drainDelta₂_faithful : drainVenue.FaithfulDelta drainDelta₂.1 drainDelta₂.2 := by
  refine ⟨by decide, fun m h1 h2 => ?_⟩
  simp only [drainDelta₂] at h1 h2
  obtain rfl | rfl : m = 1 ∨ m = 2 := by omega
  all_goals
    funext side p
    cases side <;>
      simp [drainDelta₂, drainVenue, drainBids, BookMap.applyAll, BookMap.apply, PriceMap.set,
        Function.update_apply]
    grind

theorem drainDelta₃_faithful : drainVenue.FaithfulDelta drainDelta₃.1 drainDelta₃.2 := by
  refine ⟨by decide, fun m h1 h2 => ?_⟩
  simp only [drainDelta₃] at h1 h2
  obtain rfl | rfl : m = 2 ∨ m = 3 := by omega
  all_goals
    funext side p
    cases side <;>
      simp [drainDelta₃, drainVenue, drainBids, BookMap.applyAll, BookMap.apply, PriceMap.set,
        Function.update_apply]
    grind

/-- A sync of ten levels per side, as `BookSync.new` builds it. -/
def drainSync : BookSync where
  internalBook := ⟨⟨.buy, [], 10, none⟩, ⟨.sell, [], 10, none⟩⟩
  state := .awaitingSnapshot
  pending := []
  pendingUpdates := []
  config := ⟨10, 4, 8⟩
  stats := ⟨0, 0, 0⟩

/-- A buffered delta and a duplicate around a complete snapshot: the book at 2
shows the venue's best bid. -/
theorem sync_exact_on_lossy_feed_drained :
    let calls : List SyncCall := [.delta drainDelta₂.1 drainDelta₂.2,
      .snapshot 1 (drainBids 1) [], .delta drainDelta₂.1 drainDelta₂.2]
    let s := calls.foldl SyncCall.run drainSync
    s.lastSeq = some 2 ∧ ∃ b, s.book = some b ∧
      b.bids.best = some ⟨99, 1⟩ ∧ (drainVenue.books 2 .buy).IsBest .buy ⟨99, 1⟩ := by
  intro calls s
  have hcalls : ∀ call ∈ calls, drainVenue.Faithful call := by
    simp only [calls, List.mem_cons, List.not_mem_nil, or_false]
    rintro call (rfl | rfl | rfl)
    · exact drainDelta₂_faithful
    · exact drainVenue_snapshot 1
    · exact drainDelta₂_faithful
  have hlast : s.lastSeq = some 2 := by decide
  obtain ⟨b, hb, hside⟩ := (sync_exact_on_lossy_feed drainVenue ⟨10, 4, 8⟩ drainSync rfl calls
    hcalls).1 2 hlast
  have hbest : s.internalBook.bids.best = some ⟨99, 1⟩ := by decide
  have hlive : s.book = some s.internalBook := by decide
  have heq : b = s.internalBook := by
    have h : s.book = some b := hb
    rw [hlive] at h
    cases h
    rfl
  subst heq
  exact ⟨hlast, _, hb, hbest, (hside .buy).2.2 _ hbest⟩

/-! ## §4 Depth -/

/-- Whether an update of the list names a price of a side. -/
def Named (updates : List LevelUpdate) (side : Side) (p : Price) : Prop :=
  ∃ u ∈ updates, u.side = side ∧ u.price = p

theorem BookMap.apply_of_ne {t : BookMap} {u : LevelUpdate} {side : Side} {p : Price}
    (h : ¬ (u.side = side ∧ u.price = p)) : t.apply u side p = t side p := by
  unfold BookMap.apply
  by_cases hs : side = u.side
  · subst hs
    rw [Function.update_self, PriceMap.set_of_ne]
    exact fun hp => h ⟨rfl, hp.symm⟩
  · rw [Function.update_of_ne hs]

/-- A price that no update names keeps its quantity. -/
theorem BookMap.applyAll_of_not_named : ∀ (updates : List LevelUpdate) (t : BookMap) {side : Side}
    {p : Price}, ¬ Named updates side p → t.applyAll updates side p = t side p := by
  intro updates
  induction updates with
  | nil => intro t side p _; rfl
  | cons u us ih =>
      intro t side p h
      have hus : ¬ Named us side p := fun ⟨u', hu', heq⟩ => h ⟨u', List.mem_cons_of_mem _ hu', heq⟩
      have hu : ¬ (u.side = side ∧ u.price = p) := fun heq => h ⟨u, List.mem_cons_self .., heq⟩
      exact (ih (t.apply u) hus).trans (BookMap.apply_of_ne hu)

/-- The quantity at a price that an update names is the updates' alone. -/
theorem BookMap.applyAll_of_named : ∀ (updates : List LevelUpdate) (t t' : BookMap) {side : Side}
    {p : Price}, Named updates side p → t.applyAll updates side p = t'.applyAll updates side p := by
  intro updates
  induction updates with
  | nil => rintro t t' side p ⟨u, hu, _⟩; cases hu
  | cons u us ih =>
      intro t t' side p h
      by_cases hus : Named us side p
      · exact ih (t.apply u) (t'.apply u) hus
      · -- The last update that names the price is this one.
        have hu : u.side = side ∧ u.price = p := by
          obtain ⟨u', hu', heq⟩ := h
          rcases List.mem_cons.mp hu' with rfl | hu'
          · exact heq
          · exact absurd ⟨u', hu', heq⟩ hus
        have hset : ∀ t : BookMap, t.applyAll (u :: us) side p =
            if u.qty = 0 then none else some u.qty := by
          intro t
          obtain ⟨rfl, rfl⟩ := hu
          refine (BookMap.applyAll_of_not_named us (t.apply u) hus).trans ?_
          simp [BookMap.apply]
        rw [hset, hset]

namespace Origin

/-- What a book built from a cut snapshot knows: every price if the snapshot
listed the whole side, else the prices not worse than some level it listed, and
every price a delta has named since. -/
def Known (v : Venue) (o : Origin) (side : Side) (p : Price) : Prop :=
  (∀ p' q', v.books o.seq side p' = some q' → ⟨p', q'⟩ ∈ o.listed side) ∨
    (∃ level ∈ o.listed side, side.isMoreAggressive level.price p = false) ∨
    Named (updatesOf o.deltas) side p

end Origin

namespace Venue

variable {v : Venue}

/-- A call as a session with a snapshot limit makes it. -/
def DepthFaithful (v : Venue) (call : SyncCall) : Prop :=
  call.Meets v.FaithfulDelta v.DepthSnapshot

theorem depthSnapshot_valid (seq : Nat) (bids asks : List Level)
    (h : v.DepthSnapshot seq bids asks) : Book.ValidSide bids ∧ Book.ValidSide asks := by
  obtain ⟨limit, _, hbids, hasks⟩ := h
  exact ⟨hbids.validSide, hasks.validSide⟩

/-- A cut side is the venue's at the prices it covers and empty elsewhere. -/
theorem ListsBest.ofLevels_spec {m : PriceMap} {side : Side} {limit : Nat} {levels : List Level}
    (h : ListsBest m side limit levels) (p : Price) :
    ((∀ p' q', m p' = some q' → ⟨p', q'⟩ ∈ levels) ∨
        (∃ level ∈ levels, side.isMoreAggressive level.price p = false) →
      PriceMap.ofLevels levels p = m p) ∧
    ((∀ level ∈ levels, side.isMoreAggressive level.price p = true) →
      PriceMap.ofLevels levels p = none) := by
  refine ⟨fun hcover => Ladder.eq_iff_some_iff.mpr fun q => ?_, fun hworse => ?_⟩
  · rw [h.ofLevels_eq_some_iff]
    refine ⟨fun hmem => h.true_level _ hmem, fun hq => ?_⟩
    rcases hcover with hall | ⟨level, hmem, hle⟩
    · exact hall p q hq
    · by_contra hnot
      rw [h.best p q hq hnot level hmem] at hle
      cases hle
  · refine Option.eq_none_iff_forall_not_mem.mpr fun q hq => ?_
    have hmem := (h.ofLevels_eq_some_iff p q).mp hq
    have hself := hworse _ hmem
    rw [Side.isMoreAggressive_iff] at hself
    exact lt_irrefl _ hself

/-- The map of an origin of cut snapshots: the venue's at every known price,
empty at every other. -/
theorem explains_map_spec {o : Origin} {b : Book}
    (h : o.Explains v.FaithfulDelta v.DepthSnapshot b) (side : Side) (p : Price) :
    (o.Known v side p → o.map side p = v.books o.last side p) ∧
      (¬ o.Known v side p → o.map side p = none) := by
  have hlast : v.books o.last = (v.books o.seq).applyAll (updatesOf o.deltas) :=
    (applyAll_chain h.continues h.deltas).symm
  obtain ⟨limit, _, hbids, hasks⟩ := h.snapshot
  have hside : BookMap.ofSnapshot o.bids o.asks side = .ofLevels (o.listed side) := by
    cases side <;> rfl
  have hlisted : ListsBest (v.books o.seq side) side limit (o.listed side) := by
    cases side
    · exact hbids
    · exact hasks
  obtain ⟨hcover, hworse⟩ := hlisted.ofLevels_spec p
  rw [hlast, Origin.map]
  by_cases hnamed : Named (updatesOf o.deltas) side p
  · exact ⟨fun _ => BookMap.applyAll_of_named _ _ _ hnamed,
      fun hnot => absurd (Or.inr (Or.inr hnamed)) hnot⟩
  · rw [BookMap.applyAll_of_not_named _ _ hnamed, BookMap.applyAll_of_not_named _ _ hnamed, hside]
    refine ⟨fun hknown => hcover ?_, fun hnot => hworse fun level hmem => ?_⟩
    · rcases hknown with hall | hlevel | hname
      · exact Or.inl hall
      · exact Or.inr hlevel
      · exact absurd hname hnamed
    · by_contra hle
      exact hnot (Or.inr (Or.inl ⟨level, hmem, by simpa using hle⟩))

/-- The best level of a map that is the venue's at known prices and empty
elsewhere is the venue's best exactly when that one is known. -/
theorem best_eq_iff_known {m t : PriceMap} {side : Side} {known : Price → Prop} {level top : Level}
    (hmap : ∀ p, (known p → t p = m p) ∧ (¬ known p → t p = none))
    (hlevel : t.IsBest side level) (htop : m.IsBest side top) :
    level = top ↔ known top.price := by
  have hheld : known level.price := by
    by_contra hnot
    have hnone := (hmap level.price).2 hnot
    rw [hlevel.1] at hnone
    cases hnone
  constructor
  · rintro rfl
    exact hheld
  · intro hknown
    have ht : t.IsBest side top := by
      refine ⟨((hmap top.price).1 hknown).trans htop.1, fun p q hq => ?_⟩
      by_cases hp : known p
      · exact htop.2 p q (((hmap p).1 hp).symm.trans hq)
      · rw [(hmap p).2 hp] at hq; cases hq
    exact hlevel.unique ht

end Venue

/-- **When the top of book is true with depth-limited snapshots.** In every run,
whenever the sync is live at `n`, the best level of a non-empty side is the best
level of the venue's book at `n` if and only if the price of the latter is
known: the snapshot last used listed the whole side or a level not better than
that price, or a delta applied since has named it. -/
theorem top_of_book_iff_known (v : Venue) (config : SyncConfig) (s₀ : BookSync)
    (hnew : BookSync.new config = .ok s₀) (calls : List SyncCall)
    (hcalls : ∀ call ∈ calls, v.DepthFaithful call) (n : Nat) (b : Book)
    (hn : (calls.foldl SyncCall.run s₀).lastSeq = some n)
    (hb : (calls.foldl SyncCall.run s₀).book = some b) :
    ∃ o, (calls.foldl Origin.trace (s₀, none)).2 = some o ∧ ∀ side level top,
      (b.side side).best = some level → (v.books n side).IsBest side top →
      (level = top ↔ o.Known v side top.price) := by
  have htraced := Traced.run Venue.faithfulDelta_valid Venue.depthSnapshot_valid hnew calls hcalls
  have hfst := Origin.trace_fst calls (s₀, none)
  rw [← hfst] at hn hb
  have hstate := BookSync.state_of_lastSeq hn
  obtain ⟨o, ho, hlast, hexp⟩ := htraced.live n hstate
  have hbook := htraced.inv.book
  have heq : (calls.foldl Origin.trace (s₀, none)).1.internalBook = b := by
    simpa [BookSync.book, hstate] using hb
  rw [heq] at hexp hbook
  refine ⟨o, ho, fun side level top hlevel htop => ?_⟩
  have hbest := Ladder.best_isBest (hbook.ladder side) (hexp.refines side) hlevel
  rw [hbook.sided side] at hbest
  rw [hlast] at htop
  exact Venue.best_eq_iff_known (Venue.explains_map_spec hexp side) hbest htop

theorem drainVenue_best_bid (n : Nat) {level : Level} (hmem : level ∈ drainBids n)
    (hbest : ∀ other ∈ drainBids n, other.price ≤ level.price) :
    (drainVenue.books n .buy).IsBest .buy level := by
  refine ⟨(drainBids_map n level.price level.qty).mpr hmem, fun p q hq => ?_⟩
  have hle := hbest _ ((drainBids_map n p q).mp hq)
  exact decide_eq_false (not_lt.mpr hle)

/-- The snapshot at 1 with one level per side. -/
theorem drainVenue_depth_one : drainVenue.DepthSnapshot 1 [⟨100, 1⟩] [] := by
  refine ⟨1, le_refl 1, ⟨by simp, ?_, by simp, by simp, ?_⟩,
    ⟨by simp, by simp, by simp, by simp [drainVenue, PriceMap.empty], by simp⟩⟩
  · intro level hl
    exact (drainBids_map 1 _ _).mpr (List.mem_of_mem_take (i := 1) hl)
  · intro p q hq hnot level hl
    have hmem := (drainBids_map 1 p q).mp hq
    simp only [drainBids, List.mem_cons, Level.mk.injEq, List.not_mem_nil, or_false] at hmem hnot hl
    subst hl
    obtain ⟨rfl, _⟩ := hmem.resolve_left hnot
    decide

/-- The drained book of one level per snapshot side: after the listed bid is
gone and a worse one appears, the book shows the worse one as best. -/
theorem top_of_book_false_after_drain :
    let calls : List SyncCall := [.snapshot 1 [⟨100, 1⟩] [], .delta drainDelta₂.1 drainDelta₂.2,
      .delta drainDelta₃.1 drainDelta₃.2]
    let s := calls.foldl SyncCall.run drainSync
    BookSync.new ⟨10, 4, 8⟩ = .ok drainSync ∧ (∀ call ∈ calls, drainVenue.DepthFaithful call) ∧
      s.lastSeq = some 3 ∧ (∃ b, s.book = some b ∧ b.bids.best = some ⟨98, 1⟩) ∧
      (drainVenue.books 3 .buy).IsBest .buy ⟨99, 1⟩ := by
  intro calls s
  refine ⟨rfl, ?_, by decide, ⟨s.internalBook, by decide, by decide⟩,
    drainVenue_best_bid 3 (by simp [drainBids]) (by simp [drainBids])⟩
  simp only [calls, List.mem_cons, List.not_mem_nil, or_false]
  rintro call (rfl | rfl | rfl)
  · exact drainVenue_depth_one
  · exact drainDelta₂_faithful
  · exact drainDelta₃_faithful

/-- Right after the cut snapshot its best bid is known, and shown. -/
theorem top_of_book_iff_known_at_snapshot :
    ∃ o, ([SyncCall.snapshot 1 [⟨100, 1⟩] []].foldl Origin.trace (drainSync, none)).2 = some o ∧
      o.Known drainVenue .buy 100 := by
  have hcalls : ∀ call ∈ [SyncCall.snapshot 1 [⟨100, 1⟩] []], drainVenue.DepthFaithful call := by
    simp only [List.mem_singleton]
    rintro call rfl
    exact drainVenue_depth_one
  obtain ⟨o, ho, hiff⟩ := top_of_book_iff_known drainVenue ⟨10, 4, 8⟩ drainSync rfl
    [SyncCall.snapshot 1 [⟨100, 1⟩] []] hcalls 1
    ⟨⟨.buy, [⟨100, 1⟩], 10, none⟩, ⟨.sell, [], 10, none⟩⟩ (by decide) (by decide)
  refine ⟨o, ho, (hiff .buy ⟨100, 1⟩ ⟨100, 1⟩ (by decide) ?_).mp rfl⟩
  exact drainVenue_best_bid 1 (by simp [drainBids]) (by simp [drainBids])

end Bowst.L2
