import FMITerminalBlock.Timing.QueueOrder

/-! The place of the prediction in the queue. The assertions of the removals and of `push` speak
about it; here they are shown to hold at every call that any history of calls makes. -/
namespace FMITerminalBlock.Timing.TimedEventQueue
variable {ε : Type}

/-- Only the first entry may be a prediction, and the assertions that rely on it have held so far. -/
structure SlotInvariant (q : TimedEventQueue ε) : Prop where
  frontOnly : FrontOnly q.queue
  consistent : .predictionConsistent ∉ q.failed
  notPushedOver : .pushedOverPrediction ∉ q.failed

theorem FrontOnly.consistent {queue : List (ε × Bool)} (h : FrontOnly queue) :
    isQueuePredictionConsistent queue = true := by
  cases queue with
  | nil => rfl
  | cons entry rest => exact (consistent_cons entry rest).mpr h

theorem FrontOnly.countP_le_one {queue : List (ε × Bool)} (h : FrontOnly queue) :
    queue.countP (·.2) ≤ 1 := by
  cases queue with
  | nil => exact Nat.zero_le 1
  | cons entry rest =>
    have hrest : rest.countP (·.2) = 0 := by
      rw [List.countP_eq_zero]
      intro later hlater
      rw [h later hlater]
      exact Bool.false_ne_true
    rw [List.countP_cons, hrest]
    split
    · exact le_rfl
    · exact Nat.zero_le 1

theorem FrontOnly.head?_of_prediction {queue : List (ε × Bool)} (h : FrontOnly queue) {entry : ε × Bool}
    (hmem : entry ∈ queue) (hprediction : entry.2 = true) : queue.head? = some entry := by
  cases queue with
  | nil => exact absurd hmem List.not_mem_nil
  | cons front rest =>
    rcases List.mem_cons.mp hmem with rfl | hrest
    · rfl
    · rw [h entry hrest] at hprediction
      cases hprediction

/-! ### The assertions of one call -/

theorem check_failed (q : TimedEventQueue ε) {a b : Assertion} (hab : a ≠ b) (holds : Bool) :
    a ∈ (q.check b holds).failed ↔ a ∈ q.failed := by
  cases holds with
  | true => exact Iff.rfl
  | false => simp [check, hab]

variable [Timed ε] {q : TimedEventQueue ε}

theorem removeFuturPredictions_frontOnly (h : FrontOnly q.queue) (time : ℚ) :
    FrontOnly (q.removeFuturPredictions time).queue := by
  rcases removeFuturPredictions_queue h time with ⟨hq, -⟩ | ⟨hq, -⟩
  · rw [hq]
    exact (calm_externals q.queue).frontOnly
  · rw [hq]
    exact h

/-- The scan may report its own assertion, the check before it does not concern an external event. -/
theorem push_external_failed (ev : ε) {a : Assertion} (ha : a ≠ .visitedInOrder) :
    a ∈ (q.push ev false).failed ↔ a ∈ q.failed := by
  simp only [push, Bool.not_false, Bool.or_true, check_true]
  exact check_failed q ha _

/-- Whatever a call adds, its checks on the prediction hold. -/
theorem add_failed (h : FrontOnly q.queue) (ev : ε) (predicted : Bool) {a : Assertion} (ha : a ≠ .visitedInOrder) :
    a ∈ (q.add ev predicted).failed ↔ a ∈ q.failed := by
  have hfutur : (q.removeFuturPredictions (getTime ev)).failed = q.failed := removePrediction_failed h _
  rw [add]
  cases predicted with
  | false =>
    simp only [Bool.false_and, Bool.false_eq_true, if_false]
    rw [push_external_failed ev ha, hfutur]
  | true =>
    simp only [Bool.true_and, if_true]
    split
    · rw [deleteEvent, logEvent_failed, hfutur]
    · rename_i hprior
      have hconcurrent := removePrediction_failed (removeFuturPredictions_frontOnly h (getTime ev))
        fun front => decide (|getTime front - getTime ev| ≤ eps)
      have hcalm : Calm ((q.removeFuturPredictions (getTime ev)).removeConcurrentPrediction (getTime ev)).queue := by
        rw [removeConcurrentPrediction_queue h hprior]
        exact calm_externals q.queue
      rw [push_prediction_calm hcalm, ← hfutur, ← hconcurrent, removeConcurrentPrediction]

/-! ### Histories of calls -/

theorem SlotInvariant.operate {s t : TimedEventQueue ε × List (ε × Bool)} {op : Operation ε}
    (h : SlotInvariant s.1) (hstep : operate s op = some t) : SlotInvariant t.1 := by
  cases op with
  | get now =>
    obtain ⟨⟨entry, q'⟩, hget, rfl⟩ := Option.map_eq_some_iff.mp hstep
    obtain ⟨rest, hq, rfl, -⟩ := get_eq_some hget
    exact ⟨(h.frontOnly.calm_rest hq).frontOnly, h.consistent, h.notPushedOver⟩
  | add ev predicted =>
    cases hstep
    refine ⟨?_, ?_, ?_⟩
    · cases predicted with
      | true => exact (add_prediction_spec h.frontOnly ev).1
      | false => exact (add_external_spec h.frontOnly ev).1
    · rw [add_failed h.frontOnly ev predicted (by decide)]
      exact h.consistent
    · rw [add_failed h.frontOnly ev predicted (by decide)]
      exact h.notPushedOver

theorem slotInvariant_run {epoch : Int} {ops : List (Operation ε)} {returned : List (ε × Bool)}
    (h : LabelledRun.exec operate (({ localEpoch := epoch } : TimedEventQueue ε), []) ops = some (q, returned)) :
    SlotInvariant q := by
  have hinit : SlotInvariant ({ localEpoch := epoch } : TimedEventQueue ε) :=
    ⟨fun entry hentry => absurd hentry List.not_mem_nil, List.not_mem_nil, List.not_mem_nil⟩
  have hstep : ∀ (s : TimedEventQueue ε × List (ε × Bool)) op t, SlotInvariant s.1 → operate s op = some t →
      SlotInvariant t.1 := fun _ _ _ hs hop => hs.operate hop
  exact LabelledRun.exec_invariant hstep hinit h

/-- After every history of calls the queue holds at most one prediction, and it stands first. So the
next removals find the predictions consistent, and none of these checks has ever failed. -/
theorem prediction_stands_first (epoch : Int) (ops : List (Operation ε)) {returned : List (ε × Bool)}
    (h : LabelledRun.exec operate (({ localEpoch := epoch } : TimedEventQueue ε), []) ops = some (q, returned)) :
    q.queue.countP (·.2) ≤ 1 ∧
    (∀ entry ∈ q.queue, entry.2 = true → q.queue.head? = some entry) ∧
    (∀ time, isQueuePredictionConsistent q.queue = true ∧
      isQueuePredictionConsistent (q.removeFuturPredictions time).queue = true) ∧
    .predictionConsistent ∉ q.failed ∧ .pushedOverPrediction ∉ q.failed := by
  have hslot := slotInvariant_run h
  refine ⟨hslot.frontOnly.countP_le_one, fun entry => hslot.frontOnly.head?_of_prediction, fun time => ?_,
    hslot.consistent, hslot.notPushedOver⟩
  exact ⟨hslot.frontOnly.consistent, (removeFuturPredictions_frontOnly hslot.frontOnly time).consistent⟩

/-- A second prediction replaces the first one although an external event stands between them. -/
theorem prediction_stands_first_replaced :
    ∃ q : TimedEventQueue ℚ, LabelledRun.exec operate ({ localEpoch := 7 }, [])
        [.add 2 true, .add (5 / 2) false, .add (3 / 2) true, .add 4 false] = some (q, []) ∧
      q.queue = [(3 / 2, true), (5 / 2, false), (4, false)] ∧ q.queue.countP (·.2) ≤ 1 := by
  refine ⟨_, rfl, by decide +kernel, ?_⟩
  exact (prediction_stands_first 7 [.add 2 true, .add (5 / 2) false, .add (3 / 2) true, .add 4 false] rfl).1

end FMITerminalBlock.Timing.TimedEventQueue
