/-
Bowst.Venue.SnapshotWorkerTheorems — what the snapshot thread asks of the venue.

  §1 Budget — over any stretch of a run, requests stay within the budget, and none waits
              for it more than once.
  §2 Pauses — no request goes out while the venue has asked for a pause.
-/
import Bowst.Venue.BooksTheorems
import Bowst.Venue.RateLimitTheorems
import Bowst.Venue.SnapshotWorker

namespace Bowst.Venue

open Bowst.Core Bowst.Lib

/-! ## §1 Budget -/

def WorkerDeed.isRequest : WorkerDeed → Bool
  | .requested _ _ => true
  | _ => false

/-- How many requests went out. -/
def requestsOf (deeds : List WorkerDeed) : Nat := deeds.countP WorkerDeed.isRequest

@[simp] theorem requestsOf_append (deeds deeds' : List WorkerDeed) :
    requestsOf (deeds ++ deeds') = requestsOf deeds + requestsOf deeds' := List.countP_append

namespace SnapshotWorker

/-- What no action changes, and that time does not go back. -/
structure Onward (w w' : SnapshotWorker) : Prop where
  limit : w'.limit = w.limit
  origin : w'.origin = w.origin
  time : w.time ≤ w'.time

/-- What an action does to the budget: nothing, or one call, at the time the clock shows,
that is granted the weight of a request exactly when one goes out. -/
inductive Charges (w w' : SnapshotWorker) (deeds : List WorkerDeed) : Prop where
  | still (hbudget : w'.budget = w.budget) (hrequests : requestsOf deeds = 0)
  | call (call : BucketCall) (hshown : call.timeShown w.budget.capacity = some w.mono)
      (hbudget : w'.budget = call.run w.budget)
      (hgranted : call.granted w.budget = requestsOf deeds * (depthWeight w.limit).toNat)

variable {w : SnapshotWorker}

/-- A turn of the wait for a cost within the capacity: granted, or told how long. -/
theorem tryBudget_cases (h : w.budget.Inv) (hweight : depthWeight w.limit ≤ w.budget.capacity)
    (job : SnapshotJob) (late : Duration) :
    (∃ budget, w.budget.tryTake (depthWeight w.limit) w.mono = (.ok (), budget) ∧
      w.tryBudget job late = ({ w with budget, place := .fetching job },
        [.call (.tryTake (depthWeight w.limit) w.mono), .requested job w.time])) ∨
    ∃ wait budget, w.budget.tryTake (depthWeight w.limit) w.mono = (.error wait, budget) ∧
      w.tryBudget job late = ({ w with budget }.sleep wait late,
        [.call (.tryTake (depthWeight w.limit) w.mono)]) := by
  unfold tryBudget
  dsimp only
  rcases TokenBucket.tryTake_cases h (depthWeight w.limit) w.mono with
    ⟨hgt, -⟩ | ⟨-, -, htake⟩ | ⟨-, hmissing, htake⟩
  · exact absurd hweight (UInt64.not_le.mpr hgt)
  · rw [htake]
    exact .inl ⟨_, rfl, rfl⟩
  · rw [htake]
    refine .inr ⟨_, _, rfl, ?_⟩
    -- The wait is at most a window, which is below the longest duration.
    have hle := UInt64.le_iff_toNat_le.mp hweight
    have hpos : 0 < w.budget.capacity.toNat := by
      refine Nat.pos_of_ne_zero fun hzero => ?_
      rw [show (depthWeight w.limit).toNat = 0 by omega, Nat.zero_mul] at hmissing
      exact Nat.not_lt_zero _ hmissing
    have hwait : divCeil ((depthWeight w.limit).toNat * w.budget.window -
        (w.budget.refill w.mono).scaled) w.budget.capacity.toNat ≤ w.budget.window := by
      rw [divCeil_le_iff hpos, Nat.mul_comm w.budget.window]
      exact le_trans (Nat.sub_le ..) (Nat.mul_le_mul_right _ hle)
    have hlt := h.window_lt
    exact if_neg (by unfold durationMax; omega)

theorem onward_refl (w : SnapshotWorker) : Onward w w := ⟨rfl, rfl, le_rfl⟩

theorem act_onward (w : SnapshotWorker) (a : WorkerAction) : Onward w (w.act a).1 := by
  cases a with
  | pass d => exact ⟨rfl, rfl, Nat.le_add_right ..⟩
  | receive job late =>
      simp only [act]
      split
      · unfold waitOut
        split
        · exact ⟨rfl, rfl, le_rfl⟩
        · exact ⟨rfl, rfl, (Nat.le_add_right ..).trans (Nat.le_add_right ..)⟩
      · exact onward_refl w
  | tryBudget late =>
      simp only [act]
      split
      · unfold tryBudget
        dsimp only
        split
        · exact ⟨rfl, rfl, le_rfl⟩
        · split_ifs
          · exact ⟨rfl, rfl, le_rfl⟩
          · exact ⟨rfl, rfl, (Nat.le_add_right ..).trans (Nat.le_add_right ..)⟩
      · exact onward_refl w
  | fetch took got fetchedAt =>
      simp only [act]
      split
      · exact ⟨rfl, rfl, Nat.le_add_right ..⟩
      · exact onward_refl w

theorem act_charges (h : w.budget.Inv) (hweight : depthWeight w.limit ≤ w.budget.capacity)
    (a : WorkerAction) : Charges w (w.act a).1 (w.act a).2 := by
  cases a with
  | pass d => exact .still rfl rfl
  | receive job late =>
      simp only [act]
      split
      · unfold waitOut
        split <;> exact .still rfl rfl
      · exact .still rfl rfl
  | tryBudget late =>
      simp only [act]
      split
      · rename_i job _
        have hshown : BucketCall.timeShown w.budget.capacity
            (.tryTake (depthWeight w.limit) w.mono) = some w.mono := by
          simp [BucketCall.timeShown, UInt64.not_lt.mpr hweight]
        rcases w.tryBudget_cases h hweight job late with
          ⟨budget, htake, heq⟩ | ⟨wait, budget, htake, heq⟩
        · rw [heq]
          exact .call _ hshown (by simp [BucketCall.run, htake])
            (by simp [BucketCall.granted, htake, requestsOf, WorkerDeed.isRequest])
        · rw [heq]
          exact .call _ hshown (by simp [BucketCall.run, htake, sleep])
            (by simp [BucketCall.granted, htake, requestsOf, WorkerDeed.isRequest])
      · exact .still rfl rfl
  | fetch took got fetchedAt =>
      simp only [act]
      split
      · rename_i job _
        simp only [fetchJob]
        cases hobserved : w.observed (w.answerOf job got) with
        | none => exact .still rfl rfl
        | some call =>
            obtain ⟨used, -, rfl⟩ := Option.map_eq_some_iff.mp hobserved
            exact .call (.observeUsed _ w.mono) rfl rfl
              (by simp [BucketCall.granted, requestsOf, WorkerDeed.isRequest])
      · exact .still rfl rfl

/-- What holds of every state of a run. -/
structure Budgeted (limit : UInt32) (capacity : UInt64) (w : SnapshotWorker) : Prop where
  bucket : w.budget.Inv
  capacity_eq : w.budget.capacity = capacity
  window_eq : w.budget.window = minute
  limit_eq : w.limit = limit
  shown : w.budget.last ≤ w.mono
  started : w.origin ≤ w.time
  weight : depthWeight limit ≤ capacity

variable {limit : UInt32} {capacity : UInt64}

theorem mono_le {w' : SnapshotWorker} (h : Onward w w') :
    w.mono.toNat ≤ w'.mono.toNat ∧ w'.mono.toNat - w.mono.toNat ≤ w'.time - w.time := by
  have hclamp : ∀ o t t' largest : Nat, t ≤ t' → min (t - o) largest ≤ min (t' - o) largest ∧
      min (t' - o) largest - min (t - o) largest ≤ t' - t := by omega
  simp only [mono, toNat_clampU64, h.origin]
  exact hclamp _ _ _ _ h.time

theorem Budgeted.weight_le (h : Budgeted limit capacity w) :
    depthWeight w.limit ≤ w.budget.capacity := by
  rw [h.limit_eq, h.capacity_eq]
  exact h.weight

theorem last_call {call : BucketCall} (h : w.budget.Inv)
    (hshown : call.timeShown w.budget.capacity = some w.mono) :
    (call.run w.budget).last = max w.budget.last w.mono := by
  obtain ⟨-, -, -, hlast, -⟩ := BucketCall.run_spec h call
  rw [hlast, BucketCall.lastAfter, hshown]
  rfl

theorem Budgeted.act (h : Budgeted limit capacity w) (a : WorkerAction) :
    Budgeted limit capacity (w.act a).1 := by
  have honward := w.act_onward a
  have hmono := (mono_le honward).1
  have hshown := UInt64.le_iff_toNat_le.mp h.shown
  have hlimit := honward.limit.trans h.limit_eq
  have hstarted : (w.act a).1.origin ≤ (w.act a).1.time := by
    rw [honward.origin]
    exact h.started.trans honward.time
  cases act_charges h.bucket h.weight_le a with
  | still hbudget hrequests =>
      refine ⟨hbudget ▸ h.bucket, hbudget ▸ h.capacity_eq, hbudget ▸ h.window_eq, hlimit, ?_,
        hstarted, h.weight⟩
      rw [UInt64.le_iff_toNat_le, hbudget]
      omega
  | call call htime hbudget hgranted =>
      obtain ⟨hinv, hcapacity, hwindow, -⟩ := BucketCall.run_spec h.bucket call
      refine ⟨hbudget ▸ hinv, by rw [hbudget, hcapacity, h.capacity_eq],
        by rw [hbudget, hwindow, h.window_eq], hlimit, ?_, hstarted, h.weight⟩
      rw [UInt64.le_iff_toNat_le, hbudget, last_call h.bucket htime, toNat_max]
      omega

theorem Budgeted.start (restUrl : Bytes) (hweight : depthWeight limit ≤ capacity)
    (origin : Instant) (late : Duration) :
    Budgeted limit capacity (start restUrl limit capacity origin late) where
  bucket := TokenBucket.new_inv capacity _ (by decide)
  capacity_eq := rfl
  window_eq := rfl
  limit_eq := rfl
  shown := by
    rw [UInt64.le_iff_toNat_le]
    simp [SnapshotWorker.start, TokenBucket.new, mono]
  started := Nat.le_add_right ..
  weight := hweight

/-- The thread as a metered state machine: a request spends its weight. -/
def meter (limit : UInt32) (capacity : UInt64) :
    Meter fun (w : SnapshotWorker) (a : WorkerAction) => (w.act a).1 where
  spent := fun w a => requestsOf (w.act a).2 * (depthWeight limit).toNat * minute
  balance := fun w => w.budget.scaled
  clock := fun w => w.budget.last.toNat
  rate := capacity.toNat
  full := capacity.toNat * minute
  Inv := Budgeted limit capacity
  inv_step := fun a h => h.act a
  clock_le := by
    intro w a h
    cases act_charges h.bucket h.weight_le a with
    | still hbudget hrequests => rw [hbudget]
    | call call htime hbudget hgranted =>
        rw [hbudget, last_call h.bucket htime, toNat_max]
        exact Nat.le_max_left ..
  paid := by
    intro w a h
    cases act_charges h.bucket h.weight_le a with
    | still hbudget hrequests =>
        rw [hbudget, hrequests]
        simp
    | call call htime hbudget hgranted =>
        obtain ⟨-, -, -, -, hpaid, -⟩ := BucketCall.run_spec h.bucket call
        rwa [hgranted, h.limit_eq, h.window_eq, h.capacity_eq, ← hbudget] at hpaid
  capped := by
    intro w a h
    cases act_charges h.bucket h.weight_le a with
    | still hbudget hrequests =>
        have hle := h.bucket.scaled_le
        rw [TokenBucket.full, h.capacity_eq, h.window_eq] at hle
        rw [hbudget, hrequests]
        simpa using hle
    | call call htime hbudget hgranted =>
        obtain ⟨-, -, -, -, -, hcapped⟩ := BucketCall.run_spec h.bucket call
        rwa [hgranted, h.limit_eq, TokenBucket.full, h.window_eq, h.capacity_eq, ← hbudget]
          at hcapped

theorem runs_fst (actions : List WorkerAction) : ∀ w : SnapshotWorker,
    (w.runs actions).1 = actions.foldl (fun w a => (w.act a).1) w := by
  induction actions with
  | nil => intro w; rfl
  | cons a actions ih => intro w; exact ih _

theorem meter_spentAll (actions : List WorkerAction) : ∀ w : SnapshotWorker,
    (meter limit capacity).spentAll w actions =
      requestsOf (w.runs actions).2 * (depthWeight limit).toNat * minute := by
  induction actions with
  | nil => intro w; simp [Meter.spentAll, runs, requestsOf]
  | cons a actions ih =>
      intro w
      rw [Meter.spentAll, ih, runs, runs, runMachine_cons, requestsOf_append, Nat.add_mul,
        Nat.add_mul]
      rfl

theorem Budgeted.runs (h : Budgeted limit capacity w) (actions : List WorkerAction) :
    Budgeted limit capacity (w.runs actions).1 := by
  rw [runs_fst]
  exact (meter limit capacity).inv_run actions h

theorem runs_onward (actions : List WorkerAction) : ∀ w : SnapshotWorker,
    Onward w (w.runs actions).1 := by
  induction actions with
  | nil => exact onward_refl
  | cons a actions ih =>
      intro w
      have hfirst := w.act_onward a
      have hrest : Onward (w.act a).1 (w.runs (a :: actions)).1 := ih _
      exact ⟨hrest.limit.trans hfirst.limit, hrest.origin.trans hfirst.origin,
        hfirst.time.trans hrest.time⟩

/-- A request goes out at the time that the budget was shown. -/
theorem last_of_request (h : Budgeted limit capacity w) {a : WorkerAction}
    (hrequest : requestsOf (w.act a).2 ≠ 0) : (w.act a).1.budget.last = w.mono := by
  have hshown := UInt64.le_iff_toNat_le.mp h.shown
  cases act_charges h.bucket h.weight_le a with
  | still hbudget hrequests => exact absurd hrequests hrequest
  | call call htime hbudget hgranted =>
      rw [hbudget, last_call h.bucket htime, ← UInt64.toNat_inj, toNat_max]
      omega

end SnapshotWorker

/-- **Requests stay in the budget.** Over every run of a snapshot thread whose requests cost
no more than the budget of a minute, from any request that goes out on: the weight of the
requests up to any later time is at most a minute's budget and what accrues of it between
the two times, whatever the venue answers and however long anything takes. -/
theorem requests_stay_in_budget (restUrl : Bytes) {limit : UInt32} {weightPerMinute : UInt64}
    (hweight : depthWeight limit ≤ weightPerMinute) (origin : Instant) (late : Duration)
    (before after : List WorkerAction) (first : WorkerAction)
    (hfirst : requestsOf
      ((((SnapshotWorker.start restUrl limit weightPerMinute origin late).runs before).1).act
        first).2 ≠ 0) :
    let w := ((SnapshotWorker.start restUrl limit weightPerMinute origin late).runs before).1
    let (w', deeds) := w.runs (first :: after)
    requestsOf deeds * (depthWeight limit).toNat * SnapshotWorker.minute ≤
      weightPerMinute.toNat * SnapshotWorker.minute + weightPerMinute.toNat * (w'.time - w.time) := by
  have hw := (SnapshotWorker.Budgeted.start restUrl hweight origin late).runs before
  generalize ((SnapshotWorker.start restUrl limit weightPerMinute origin late).runs before).1 = w
    at hw hfirst
  dsimp only
  have hbound := (SnapshotWorker.meter limit weightPerMinute).window_le first after hw
  rw [SnapshotWorker.meter_spentAll, ← SnapshotWorker.runs_fst] at hbound
  refine hbound.trans (Nat.add_le_add_left (Nat.mul_le_mul_left _ ?_) _)
  -- The budget's clock is between the two times.
  have hlast := SnapshotWorker.last_of_request hw hfirst
  have hshown := UInt64.le_iff_toNat_le.mp (hw.runs (first :: after)).shown
  have hmono := (SnapshotWorker.mono_le (SnapshotWorker.runs_onward (first :: after) w)).2
  show (w.runs (first :: after)).1.budget.last.toNat - (w.act first).1.budget.last.toNat ≤ _
  rw [hlast]
  omega

/-- A request of weight 50 goes out every 2.5 seconds at best. -/
theorem requests_stay_in_budget_of_1200 :
    let job : SnapshotJob := ⟨btcUsdt, 0, .sync⟩
    let w := ((SnapshotWorker.start (ascii "https://api.example") 1000 1200 0 0).runs
      [.receive job 0]).1
    let (w', deeds) := w.runs [.tryBudget 0, .fetch 7 (.error .closed) ⟨0⟩, .pass 5]
    requestsOf deeds * 50 * SnapshotWorker.minute ≤
      1200 * SnapshotWorker.minute + 1200 * (w'.time - w.time) :=
  requests_stay_in_budget (ascii "https://api.example") (by decide) 0 0
    [.receive ⟨btcUsdt, 0, .sync⟩ 0] [.fetch 7 (.error .closed) ⟨0⟩, .pass 5] (.tryBudget 0)
    (by decide)

/-- Until when the venue asked to pause in an answer. -/
def WorkerDeed.pause? : WorkerDeed → Option Instant
  | .answered (some response) _ time =>
      if response.status = 418 ∨ response.status = 429 then
        some (later time (response.retryAfterSecs.getD 60 * 1000000000))
      else none
  | _ => none

/-- A request heeds what was asked before it. -/
def WorkerDeed.Heeds (asked deed : WorkerDeed) : Prop :=
  ∀ paused, asked.pause? = some paused → ∀ job time, deed = .requested job time → paused ≤ time

namespace SnapshotWorker

variable {w : SnapshotWorker} {deeds : List WorkerDeed}

/-- Every pause that was asked for is over, or the thread is idle and will wait for the
end of one that ends no earlier. -/
structure Paused (w : SnapshotWorker) (deeds : List WorkerDeed) : Prop where
  heeded : deeds.Pairwise WorkerDeed.Heeds
  ended : ∀ deed ∈ deeds, ∀ paused, deed.pause? = some paused → paused ≤ w.time ∨
    w.place = .idle ∧ ∃ last, w.pausedUntil = some last ∧ paused ≤ last

/-- Deeds that neither ask for a pause nor are requests, behind which each pause that was
over is over still. -/
theorem Paused.quiet (h : Paused w deeds) {w' : SnapshotWorker} {deeds' : List WorkerDeed}
    (hasked : ∀ deed ∈ deeds', deed.pause? = none) (hrequests : requestsOf deeds' = 0)
    (hover : ∀ paused, (paused ≤ w.time ∨
        w.place = .idle ∧ ∃ last, w.pausedUntil = some last ∧ paused ≤ last) →
      paused ≤ w'.time ∨ w'.place = .idle ∧ ∃ last, w'.pausedUntil = some last ∧ paused ≤ last) :
    Paused w' (deeds ++ deeds') := by
  have hnone : ∀ deed ∈ deeds', ∀ job time, deed ≠ .requested job time := by
    intro deed hdeed job time heq
    have hpos := List.countP_eq_zero.mp hrequests deed hdeed
    rw [heq] at hpos
    exact hpos rfl
  refine ⟨List.pairwise_append.mpr ⟨h.heeded, ?_, ?_⟩, fun deed hdeed paused hpaused => ?_⟩
  · exact List.pairwise_of_forall_mem_list fun deed _ deed' hdeed' paused _ job time heq =>
      absurd heq (hnone deed' hdeed' job time)
  · intro deed _ deed' hdeed' paused _ job time heq
    exact absurd heq (hnone deed' hdeed' job time)
  · rcases List.mem_append.mp hdeed with hold | hnew
    · exact hover paused (h.ended deed hold paused hpaused)
    · rw [hasked deed hnew] at hpaused
      cases hpaused

/-- A request goes out when every pause is over. -/
theorem Paused.request (h : Paused w deeds) (hplace : w.place ≠ .idle) {w' : SnapshotWorker}
    (htime : w.time ≤ w'.time) (call : BucketCall) (job : SnapshotJob) :
    Paused w' (deeds ++ [.call call, .requested job w.time]) := by
  have hall : ∀ deed ∈ deeds, ∀ paused, deed.pause? = some paused → paused ≤ w.time :=
    fun deed hdeed paused hpaused =>
      (h.ended deed hdeed paused hpaused).resolve_right fun hidle => hplace hidle.1
  have hnone : ∀ deed ∈ [WorkerDeed.call call, .requested job w.time], deed.pause? = none := by
    simp [WorkerDeed.pause?]
  refine ⟨List.pairwise_append.mpr ⟨h.heeded, ?_, ?_⟩, fun deed hdeed paused hpaused => ?_⟩
  · exact List.pairwise_of_forall_mem_list fun deed hdeed _ _ paused hpaused => by
      rw [hnone deed hdeed] at hpaused
      cases hpaused
  · intro deed hdeed deed' hdeed' paused hpaused job' time heq
    rw [heq] at hdeed'
    simp only [List.mem_cons, reduceCtorEq, WorkerDeed.requested.injEq, false_or,
      List.not_mem_nil, or_false] at hdeed'
    rw [hdeed'.2]
    exact hall deed hdeed paused hpaused
  · rcases List.mem_append.mp hdeed with hold | hnew
    · exact .inl ((hall deed hold paused hpaused).trans htime)
    · rw [hnone deed hnew] at hpaused
      cases hpaused

/-- An answer that asks for a pause is a failure that carries it. -/
theorem bodyOf_refused {job : SnapshotJob} {got : Except NetError (Response × Bytes)}
    {response : Response} (hanswer : w.answerOf job got = some response)
    (hstatus : response.status = 418 ∨ response.status = 429) :
    ∃ reason, w.bodyOf job got =
      .error ⟨reason, some (response.retryAfterSecs.getD 60 * 1000000000)⟩ := by
  cases hurl : depthUrl w.restUrl job.instrument.symbol w.limit with
  | error err => simp only [answerOf, hurl, reduceCtorEq] at hanswer
  | ok url =>
      rcases got with err | ⟨response', body⟩
      · simp only [answerOf, hurl, reduceCtorEq] at hanswer
      · simp only [answerOf, hurl, Option.some.injEq] at hanswer
        subst hanswer
        have hbad : response'.status ≠ 200 := by omega
        simp only [bodyOf, hurl, refusal, requireOk, if_neg hbad, if_pos hstatus, Except.map]
        exact ⟨_, rfl⟩

/-- An answer that asks for a pause leaves the thread idle until its end. -/
theorem Paused.fetchJob (h : Paused w deeds) (hplace : w.place ≠ .idle) (job : SnapshotJob)
    (took : Duration) (got : Except NetError (Response × Bytes)) (fetchedAt : WallTime) :
    Paused (w.fetchJob job took got fetchedAt).1 (deeds ++ (w.fetchJob job took got fetchedAt).2) := by
  let calls := (w.observed (w.answerOf job got)).toList
  have hcalls : Paused w (deeds ++ calls.map WorkerDeed.call) := by
    refine h.quiet ?_ ?_ fun _ => id
    · simp [WorkerDeed.pause?]
    · simp [requestsOf, List.countP_map, Function.comp_def, WorkerDeed.isRequest]
  have hall : ∀ deed ∈ deeds ++ calls.map WorkerDeed.call,
      ∀ paused, deed.pause? = some paused → paused ≤ w.time :=
    fun deed hdeed paused hpaused =>
      (hcalls.ended deed hdeed paused hpaused).resolve_right fun hidle => hplace hidle.1
  simp only [SnapshotWorker.fetchJob, ← List.append_assoc]
  refine ⟨List.pairwise_append.mpr ⟨hcalls.heeded, List.pairwise_singleton .., ?_⟩,
    fun deed hdeed paused hpaused => ?_⟩
  · intro deed _ deed' hdeed' paused _ job' time heq
    rw [heq] at hdeed'
    simp at hdeed'
  · rcases List.mem_append.mp hdeed with hold | hnew
    · exact .inl ((hall deed hold paused hpaused).trans (Nat.le_add_right ..))
    · rw [List.mem_singleton.mp hnew] at hpaused
      refine .inr ⟨rfl, paused, ?_, le_rfl⟩
      cases hanswer : w.answerOf job got with
      | none =>
          rw [hanswer] at hpaused
          cases hpaused
      | some response =>
          simp only [hanswer, WorkerDeed.pause?] at hpaused
          split_ifs at hpaused with hstatus
          obtain ⟨reason, hbody⟩ := bodyOf_refused hanswer hstatus
          simp only [hbody, fetch]
          exact hpaused

theorem Paused.act (w : SnapshotWorker) (deeds : List WorkerDeed) (a : WorkerAction)
    (h : Paused w deeds) : Paused (w.act a).1 (deeds ++ (w.act a).2) := by
  have hsame : Paused w (deeds ++ []) := by simpa using h
  have hlonger : ∀ {w' : SnapshotWorker}, w.time ≤ w'.time → w.place ≠ .idle →
      ∀ paused, (paused ≤ w.time ∨
        w.place = .idle ∧ ∃ last, w.pausedUntil = some last ∧ paused ≤ last) →
      paused ≤ w'.time ∨ w'.place = .idle ∧ ∃ last, w'.pausedUntil = some last ∧ paused ≤ last :=
    fun htime hplace paused hpaused =>
      .inl ((hpaused.resolve_right fun hidle => hplace hidle.1).trans htime)
  cases a with
  | pass d =>
      refine h.quiet (by simp [SnapshotWorker.act]) rfl fun paused hpaused => ?_
      exact hpaused.imp (fun hle => hle.trans (Nat.le_add_right ..)) id
  | receive job late =>
      simp only [SnapshotWorker.act]
      split
      · refine h.quiet (by simp) rfl fun paused hpaused => .inl ?_
        show paused ≤ (w.waitOut late).time
        unfold waitOut
        split
        · rename_i hnone
          rcases hpaused with hle | ⟨-, last, hlast, -⟩
          · exact hle
          · rw [hnone] at hlast
            cases hlast
        · rename_i until' hsome
          have hbehind : ∀ t until' late : Nat, t ≤ t + (until' - t) + late ∧
              until' ≤ t + (until' - t) + late := by omega
          rcases hpaused with hle | ⟨-, last, hlast, hle⟩
          · exact hle.trans (hbehind ..).1
          · rw [hsome] at hlast
            cases hlast
            exact hle.trans (hbehind ..).2
      · exact hsame
  | tryBudget late =>
      simp only [SnapshotWorker.act]
      split
      · rename_i job hplace
        have hidle : w.place ≠ .idle := by simp [hplace]
        unfold SnapshotWorker.tryBudget
        dsimp only
        split
        · refine h.request hidle ?_ _ job
          exact le_rfl
        · split_ifs
          · refine h.request hidle ?_ _ job
            exact le_rfl
          · exact h.quiet (by simp [WorkerDeed.pause?]) rfl
              (hlonger ((Nat.le_add_right ..).trans (Nat.le_add_right ..)) hidle)
      · exact hsame
  | fetch took got fetchedAt =>
      simp only [SnapshotWorker.act]
      split
      · rename_i job hplace
        exact h.fetchJob (by simp [hplace]) job took got fetchedAt
      · exact hsame

end SnapshotWorker

/-- **A pause is kept.** On every run of the snapshot thread: when the venue refuses a
request with status 418 or 429, no request for any instrument goes out before the time it
asked to wait has passed, a minute if it named none. -/
theorem pauses_are_kept (restUrl : Bytes) (limit : UInt32) (weightPerMinute : UInt64)
    (origin : Instant) (late : Duration) (actions : List WorkerAction) :
    ((SnapshotWorker.start restUrl limit weightPerMinute origin late).runs actions).2.Pairwise
      WorkerDeed.Heeds := by
  have hstart : SnapshotWorker.Paused
      (SnapshotWorker.start restUrl limit weightPerMinute origin late) [] := ⟨.nil, by simp⟩
  exact (runMachine_induction SnapshotWorker.Paused.act actions hstart).heeded

end Bowst.Venue
